import IFramework.Commands.CommandProcessor

/-!
# The event subscriber over a relational database

A delivery is one call of `EventSubscriber.ConsumeMessage`, by any subscriber of one subscription
name. It goes through the handlers of the event one after the other; each has its own scope, and its
steps are `HasEventHandledAsync`, the run of the handler, `HandleEventAsync` with the commit of the
transaction, the two calls that send, and, after an exception, `Rollback` and
`SaveFailHandledEventAsync`. An exception of the failure path leaves the loop. `CommitOffset` stands
in the `finally` block. The steps of all deliveries may be interleaved in any way; each step on the
database is one transaction, and a subscriber may crash between any two steps.

`HandledEvents` and `FailHandledEvents` are one table, whose primary key is the id of the event with
the name of the subscription. `EnsureIdempotent` is on; the rows that `PersistEvent` and
`EnsureArrival` add for the messages are left out, as is what no one reads of a row. What a handler
writes, sends, publishes and throws is chosen anew in each run; an exception of `WrapCommand` counts
as one of the handler. `checkFails`, `saveFails` and `failFails` are the failures of the database that
have nothing to do with the primary key.
-/

namespace IFramework.EventSubscribers

/-- What a subscriber reads of the `IMessageContext` of an event. -/
structure EventContext (M : Type) where
  messageId : String
  message : Option M
  sagaInfo : Option SagaInfo
  deriving DecidableEq, Repr

/-- What `WrapCommand` makes of a command. -/
structure CommandMessage (C : Type) where
  command : C
  sagaInfo : Option SagaInfo
  deriving DecidableEq, Repr

/-- What a run of a handler leaves behind in its scope. -/
structure HandlerRun (W C P R : Type) where
  writes : List W
  commands : List C
  bus : EventBus (Event P) (Obj P R)
  thrown : Option (Exn P)

/-! ## The message store -/

/-- A `HandledEvent`, or a `FailHandledEvent`. -/
structure HandledEvent where
  id : String
  subscriptionName : String
  failed : Bool
  deriving DecidableEq, Repr

/-- The primary key. -/
def HandledEvent.key (e : HandledEvent) : String × String := (e.id, e.subscriptionName)

/-- What the `DbContext` of a scope tracks. -/
structure DbContext (W : Type) where
  writes : List W
  handledEvents : List HandledEvent

/-- A transaction that has been committed, with the handler it belongs to. -/
structure Transaction (W : Type) where
  delivery : Nat
  eventId : String
  handlerType : String
  writes : List W
  deriving DecidableEq, Repr

/-- The rows, each with the delivery that has inserted it, and the transactions so far. -/
structure Database (W : Type) where
  handledEvents : List (Nat × HandledEvent)
  transactions : List (Transaction W)

section Store

variable {W M : Type}

/-- A new scope, and what `Rollback` leaves. -/
def DbContext.empty : DbContext W := ⟨[], []⟩

/-- `SaveChangesAsync` and the commit of the transaction; `none` is a violation of the primary key. -/
def Database.saveChanges (db : Database W) (delivery : Nat) (eventId handlerType : String)
    (context : DbContext W) : Option (Database W) :=
  if (db.handledEvents.map (fun row => row.2.key) ++
      context.handledEvents.map HandledEvent.key).Nodup then
    some
      { handledEvents := db.handledEvents ++ context.handledEvents.map fun e => (delivery, e)
        transactions := db.transactions ++ [⟨delivery, eventId, handlerType, context.writes⟩] }
  else none

/-- `HandleEventAsync`: what is tracked when it saves. -/
def handleEventAsync (context : DbContext W) (eventContext : EventContext M)
    (subscriptionName : String) : DbContext W :=
  { context with
    handledEvents :=
      context.handledEvents ++ [⟨eventContext.messageId, subscriptionName, false⟩] }

/-- `SaveFailHandledEventAsync`: what is tracked when it saves. -/
def saveFailHandledEventAsync (context : DbContext W) (eventContext : EventContext M)
    (subscriptionName : String) : DbContext W :=
  { context with
    handledEvents :=
      context.handledEvents ++ [⟨eventContext.messageId, subscriptionName, true⟩] }

/-- `HasEventHandledAsync`. -/
def hasEventHandledAsync (db : Database W) (eventId subscriptionName : String) : Bool :=
  db.handledEvents.any fun row =>
    row.2.id = eventId ∧ row.2.subscriptionName = subscriptionName

end Store

/-! ## The messages -/

section Messages

variable {M P R : Type}

/-- The messages of an event that a handler has handled. -/
def handledMessages (context : EventContext M) (bus : EventBus (Event P) (Obj P R)) :
    List (Message P R) :=
  bus.getEvents.map (fun e => .event e context.messageId context.sagaInfo) ++
    bus.getToPublishAnywayMessages.map (fun e => .event e context.messageId context.sagaInfo) ++
    (sagaReplyMessage context.sagaInfo bus).toList

/-- The messages of an event that a handler has failed on. An unknown exception interrupts the
saga. -/
def failedMessages (context : EventContext M) (e : Exn P) (bus : EventBus (Event P) (Obj P R)) :
    List (Message P R) :=
  let exceptionMessage : List (Message P R) :=
    (e.domainExceptionEvent.map fun event => .event event context.messageId none).toList
  let bus :=
    match e with
    | .domain _ _ _ => bus
    | .other _ _ => if context.sagaInfo.isSome then bus.finishSaga (.exn e) else bus
  exceptionMessage ++
    bus.getToPublishAnywayMessages.map (fun e => .event e context.messageId context.sagaInfo) ++
    (sagaReplyMessage context.sagaInfo bus).toList

end Messages

/-! ## The steps -/

/-- The next step of a delivery. -/
inductive Point (C P R : Type) where
  | check
  | handle
  | save (commands : List C) (bus : EventBus (Event P) (Obj P R))
  | send (commands : List (CommandMessage C)) (messages : List (Message P R))
  | publish (messages : List (Message P R))
  | fail (e : Exn P) (bus : EventBus (Event P) (Obj P R))
  | commitOffset
  | ended

/-- A call of `ConsumeMessage`; the first of `handlerTypes` is the current one. -/
structure Delivery (W C M P R : Type) where
  subscriber : Nat
  context : EventContext M
  handlerTypes : List String
  tracked : DbContext W
  point : Point C P R
  offsetCommitted : Bool

/-- What `CommandBus` or `MessagePublisher` gets. -/
inductive Outgoing (C P R : Type) where
  | commands (commands : List (CommandMessage C))
  | messages (messages : List (Message P R))

/-- A call that sends, with the handler it belongs to. -/
structure Sent (C P R : Type) where
  delivery : Nat
  eventId : String
  handlerType : String
  outgoing : Outgoing C P R

/-- The database, the deliveries and the calls that send. -/
structure State (W C M P R : Type) where
  database : Database W
  deliveries : Nat → Delivery W C M P R
  deliveryCount : Nat
  sent : List (Sent C P R)

/-- A step of one delivery, a new delivery, or a crash. -/
inductive Action (W C M P R : Type) where
  | deliver (subscriber : Nat) (context : EventContext M)
  | check (d : Nat)
  | checkFails (d : Nat) (e : Exn P)
  | handle (d : Nat) (run : HandlerRun W C P R)
  | save (d : Nat)
  | saveFails (d : Nat) (e : Exn P)
  | send (d : Nat)
  | publish (d : Nat)
  | fail (d : Nat)
  | failFails (d : Nat)
  | commitOffset (d : Nat)
  | crash (subscriber : Nat)

section Steps

variable {W C M P R : Type}

/-- The delivery that stands for one that has not been made. -/
def Delivery.none : Delivery W C M P R := ⟨0, ⟨"", .none, .none⟩, [], .empty, .ended, false⟩

/-- The loop at its head, with the handlers that are left. -/
def Delivery.loop (delivery : Delivery W C M P R) (handlerTypes : List String) :
    Delivery W C M P R :=
  { delivery with
    handlerTypes := handlerTypes
    tracked := .empty
    point := if handlerTypes = [] then .commitOffset else .check }

/-- An empty database. -/
def State.init : State W C M P R := ⟨⟨[], []⟩, fun _ => .none, 0, []⟩

/-- Replace a delivery. -/
abbrev State.setDelivery (s : State W C M P R) (d : Nat) (delivery : Delivery W C M P R) :
    State W C M P R :=
  { s with deliveries := Function.update s.deliveries d delivery }

/-- How many messages a call sends. -/
def Outgoing.count : Outgoing C P R → Nat
  | .commands cs => cs.length
  | .messages ms => ms.length

/-- A call that sends is made only if there is something to send. -/
def State.send (s : State W C M P R) (sent : Sent C P R) : State W C M P R :=
  { s with sent := if sent.outgoing.count > 0 then s.sent ++ [sent] else s.sent }

/-- All deliveries of a subscriber stop where they are. -/
def State.crash (s : State W C M P R) (subscriber : Nat) : State W C M P R :=
  { s with deliveries := fun d =>
      if (s.deliveries d).subscriber = subscriber then { s.deliveries d with point := .ended }
      else s.deliveries d }

variable (subscriptionName : String) (getHandlerTypes : M → List String) (violation : String)

/-- The handlers of an event; there is none for a message that is `null`. -/
def handlersOf (context : EventContext M) : List String :=
  (context.message.map getHandlerTypes).getD []

/-- The name under which a handler records its events. -/
def handlerSubscription (handlerType : String) : String :=
  subscriptionName ++ "." ++ handlerType

/-- One action. -/
def step (s : State W C M P R) : Action W C M P R → Option (State W C M P R)
  | .deliver subscriber context =>
    let delivery : Delivery W C M P R := ⟨subscriber, context, [], .empty, .check, false⟩
    some { s.setDelivery s.deliveryCount (delivery.loop (handlersOf getHandlerTypes context)) with
      deliveryCount := s.deliveryCount + 1 }
  | .check d =>
    let delivery := s.deliveries d
    match delivery.point, delivery.handlerTypes with
    | .check, h :: hs =>
      if hasEventHandledAsync s.database delivery.context.messageId
          (handlerSubscription subscriptionName h) then
        some (s.setDelivery d (delivery.loop hs))
      else some (s.setDelivery d { delivery with point := .handle })
    | _, _ => none
  | .checkFails d e =>
    let delivery := s.deliveries d
    match delivery.point with
    | .check => some (s.setDelivery d { delivery with point := .fail e .new })
    | _ => none
  | .handle d run =>
    let delivery := s.deliveries d
    match delivery.point with
    | .handle =>
      some (s.setDelivery d { delivery with
        tracked := { delivery.tracked with writes := delivery.tracked.writes ++ run.writes }
        point :=
          match run.thrown with
          | some e => .fail e run.bus
          | none => .save run.commands run.bus })
    | _ => none
  | .save d =>
    let delivery := s.deliveries d
    match delivery.point, delivery.handlerTypes with
    | .save commands bus, h :: _ =>
      let tracked := handleEventAsync delivery.tracked delivery.context
        (handlerSubscription subscriptionName h)
      match s.database.saveChanges d delivery.context.messageId h tracked with
      | some database =>
        some ({ s with database := database }.setDelivery d { delivery with
          tracked := tracked
          point := .send (commands.map fun c => ⟨c, delivery.context.sagaInfo⟩)
            (handledMessages delivery.context bus) })
      | none =>
        some (s.setDelivery d { delivery with
          tracked := tracked
          point := .fail (Commands.dbUpdateException violation) bus })
    | _, _ => none
  | .saveFails d e =>
    let delivery := s.deliveries d
    match delivery.point with
    | .save _ bus => some (s.setDelivery d { delivery with point := .fail e bus })
    | _ => none
  | .send d =>
    let delivery := s.deliveries d
    match delivery.point, delivery.handlerTypes with
    | .send commands messages, h :: _ =>
      some ((s.send ⟨d, delivery.context.messageId, h, .commands commands⟩).setDelivery d
        { delivery with point := .publish messages })
    | _, _ => none
  | .publish d =>
    let delivery := s.deliveries d
    match delivery.point, delivery.handlerTypes with
    | .publish messages, h :: hs =>
      some ((s.send ⟨d, delivery.context.messageId, h, .messages messages⟩).setDelivery d
        (delivery.loop hs))
    | _, _ => none
  | .fail d =>
    let delivery := s.deliveries d
    match delivery.point, delivery.handlerTypes with
    | .fail e bus, h :: _ =>
      let tracked := saveFailHandledEventAsync DbContext.empty delivery.context
        (handlerSubscription subscriptionName h)
      match s.database.saveChanges d delivery.context.messageId h tracked with
      | some database =>
        some ({ s with database := database }.setDelivery d { delivery with
          tracked := tracked
          point := .publish (failedMessages delivery.context e bus) })
      | none => some (s.setDelivery d { delivery with tracked := tracked, point := .commitOffset })
    | _, _ => none
  | .failFails d =>
    let delivery := s.deliveries d
    match delivery.point with
    | .fail _ _ => some (s.setDelivery d { delivery with point := .commitOffset })
    | _ => none
  | .commitOffset d =>
    let delivery := s.deliveries d
    match delivery.point with
    | .commitOffset =>
      some (s.setDelivery d { delivery with point := .ended, offsetCommitted := true })
    | _ => none
  | .crash subscriber => some (s.crash subscriber)

/-- What one action does, with the point it is taken at. -/
inductive Transition (s : State W C M P R) : Action W C M P R → State W C M P R → Prop
  | deliver (subscriber : Nat) (context : EventContext M) :
      Transition s (.deliver subscriber context)
        { s.setDelivery s.deliveryCount
            (Delivery.loop ⟨subscriber, context, [], .empty, .check, false⟩
              (handlersOf getHandlerTypes context)) with
          deliveryCount := s.deliveryCount + 1 }
  | skip {d : Nat} {h : String} {hs : List String} (hpoint : (s.deliveries d).point = .check)
      (htypes : (s.deliveries d).handlerTypes = h :: hs)
      (hhandled : hasEventHandledAsync s.database (s.deliveries d).context.messageId
        (handlerSubscription subscriptionName h) = true) :
      Transition s (.check d) (s.setDelivery d ((s.deliveries d).loop hs))
  | begin {d : Nat} {h : String} {hs : List String} (hpoint : (s.deliveries d).point = .check)
      (htypes : (s.deliveries d).handlerTypes = h :: hs) :
      Transition s (.check d) (s.setDelivery d { s.deliveries d with point := .handle })
  | checkFails {d : Nat} {e : Exn P} (hpoint : (s.deliveries d).point = .check) :
      Transition s (.checkFails d e)
        (s.setDelivery d { s.deliveries d with point := .fail e .new })
  | handle {d : Nat} {run : HandlerRun W C P R} (hpoint : (s.deliveries d).point = .handle) :
      Transition s (.handle d run) (s.setDelivery d { s.deliveries d with
        tracked :=
          { (s.deliveries d).tracked with
            writes := (s.deliveries d).tracked.writes ++ run.writes }
        point :=
          match run.thrown with
          | some e => .fail e run.bus
          | none => .save run.commands run.bus })
  | save {d : Nat} {commands : List C} {bus : EventBus (Event P) (Obj P R)} {h : String}
      {hs : List String} {database : Database W}
      (hpoint : (s.deliveries d).point = .save commands bus)
      (htypes : (s.deliveries d).handlerTypes = h :: hs)
      (hsaved : s.database.saveChanges d (s.deliveries d).context.messageId h
        (handleEventAsync (s.deliveries d).tracked (s.deliveries d).context
          (handlerSubscription subscriptionName h)) = some database) :
      Transition s (.save d) ({ s with database := database }.setDelivery d { s.deliveries d with
        tracked := handleEventAsync (s.deliveries d).tracked (s.deliveries d).context
          (handlerSubscription subscriptionName h)
        point := .send (commands.map fun c => ⟨c, (s.deliveries d).context.sagaInfo⟩)
          (handledMessages (s.deliveries d).context bus) })
  | saveFails {a : Action W C M P R} {d : Nat} {commands : List C}
      {bus : EventBus (Event P) (Obj P R)} {e : Exn P} {tracked : DbContext W}
      (haction : a = .save d ∨ a = .saveFails d e)
      (hpoint : (s.deliveries d).point = .save commands bus) :
      Transition s a (s.setDelivery d { s.deliveries d with
        tracked := tracked
        point := .fail e bus })
  | send {d : Nat} {commands : List (CommandMessage C)} {messages : List (Message P R)} {h : String}
      {hs : List String} (hpoint : (s.deliveries d).point = .send commands messages)
      (htypes : (s.deliveries d).handlerTypes = h :: hs) :
      Transition s (.send d)
        ((s.send ⟨d, (s.deliveries d).context.messageId, h, .commands commands⟩).setDelivery d
          { s.deliveries d with point := .publish messages })
  | publish {d : Nat} {messages : List (Message P R)} {h : String} {hs : List String}
      (hpoint : (s.deliveries d).point = .publish messages)
      (htypes : (s.deliveries d).handlerTypes = h :: hs) :
      Transition s (.publish d)
        ((s.send ⟨d, (s.deliveries d).context.messageId, h, .messages messages⟩).setDelivery d
          ((s.deliveries d).loop hs))
  | fail {d : Nat} {e : Exn P} {bus : EventBus (Event P) (Obj P R)} {h : String}
      {hs : List String} {database : Database W} (hpoint : (s.deliveries d).point = .fail e bus)
      (htypes : (s.deliveries d).handlerTypes = h :: hs)
      (hsaved : s.database.saveChanges d (s.deliveries d).context.messageId h
        (saveFailHandledEventAsync DbContext.empty (s.deliveries d).context
          (handlerSubscription subscriptionName h)) = some database) :
      Transition s (.fail d) ({ s with database := database }.setDelivery d { s.deliveries d with
        tracked := saveFailHandledEventAsync DbContext.empty (s.deliveries d).context
          (handlerSubscription subscriptionName h)
        point := .publish (failedMessages (s.deliveries d).context e bus) })
  | leave {d : Nat} {e : Exn P} {bus : EventBus (Event P) (Obj P R)} {h : String}
      {hs : List String} (hpoint : (s.deliveries d).point = .fail e bus)
      (htypes : (s.deliveries d).handlerTypes = h :: hs)
      (hviolation : s.database.saveChanges d (s.deliveries d).context.messageId h
        (saveFailHandledEventAsync DbContext.empty (s.deliveries d).context
          (handlerSubscription subscriptionName h)) = none) :
      Transition s (.fail d) (s.setDelivery d { s.deliveries d with
        tracked := saveFailHandledEventAsync DbContext.empty (s.deliveries d).context
          (handlerSubscription subscriptionName h)
        point := .commitOffset })
  | failFails {d : Nat} {e : Exn P} {bus : EventBus (Event P) (Obj P R)}
      (hpoint : (s.deliveries d).point = .fail e bus) :
      Transition s (.failFails d) (s.setDelivery d { s.deliveries d with point := .commitOffset })
  | commitOffset {d : Nat} (hpoint : (s.deliveries d).point = .commitOffset) :
      Transition s (.commitOffset d)
        (s.setDelivery d { s.deliveries d with point := .ended, offsetCommitted := true })
  | crash (subscriber : Nat) :
      Transition s (.crash subscriber) (s.crash subscriber)

variable {subscriptionName} {getHandlerTypes} {violation}

theorem Transition.of_step {s s' : State W C M P R} {a : Action W C M P R}
    (hstep : step subscriptionName getHandlerTypes violation s a = some s') :
    Transition subscriptionName getHandlerTypes s a s' := by
  cases a with
  | deliver subscriber context =>
    cases hstep
    exact .deliver subscriber context
  | check d =>
    simp only [step] at hstep
    split at hstep
    next h hs hpoint htypes =>
      split at hstep
      next hhandled =>
        cases hstep
        exact .skip hpoint htypes hhandled
      · cases hstep
        exact .begin hpoint htypes
    · cases hstep
  | checkFails d e =>
    simp only [step] at hstep
    split at hstep
    next hpoint =>
      cases hstep
      exact .checkFails hpoint
    · cases hstep
  | handle d run =>
    simp only [step] at hstep
    split at hstep
    next hpoint =>
      cases hstep
      exact .handle hpoint
    · cases hstep
  | save d =>
    simp only [step] at hstep
    split at hstep
    next commands bus h hs hpoint htypes =>
      split at hstep
      next database hsaved =>
        cases hstep
        exact .save hpoint htypes hsaved
      · cases hstep
        exact .saveFails (.inl rfl) hpoint
    · cases hstep
  | saveFails d e =>
    simp only [step] at hstep
    split at hstep
    next commands bus hpoint =>
      cases hstep
      exact .saveFails (.inr rfl) hpoint
    · cases hstep
  | send d =>
    simp only [step] at hstep
    split at hstep
    next commands messages h hs hpoint htypes =>
      cases hstep
      exact .send hpoint htypes
    · cases hstep
  | publish d =>
    simp only [step] at hstep
    split at hstep
    next messages h hs hpoint htypes =>
      cases hstep
      exact .publish hpoint htypes
    · cases hstep
  | fail d =>
    simp only [step] at hstep
    split at hstep
    next e bus h hs hpoint htypes =>
      split at hstep
      next database hsaved =>
        cases hstep
        exact .fail hpoint htypes hsaved
      next hviolation =>
        cases hstep
        exact .leave hpoint htypes hviolation
    · cases hstep
  | failFails d =>
    simp only [step] at hstep
    split at hstep
    next e bus hpoint =>
      cases hstep
      exact .failFails hpoint
    · cases hstep
  | commitOffset d =>
    simp only [step] at hstep
    split at hstep
    next hpoint =>
      cases hstep
      exact .commitOffset hpoint
    · cases hstep
  | crash subscriber =>
    cases hstep
    exact .crash subscriber

end Steps

end IFramework.EventSubscribers
