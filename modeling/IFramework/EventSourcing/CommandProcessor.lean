import IFramework.EventSourcing.UnitOfWork

/-!
# Handling a command

The parts of `EventSourcingCommandProcessor.ConsumeMessage`: what a handler does to the objects of
its scope, what becomes of an exception it throws, which messages are sent, and the delegate that
`IConcurrencyProcessor` repeats when the event store reports a conflict.

A handler is a tree of the calls it makes: it goes on with the aggregate that `GetByKeyAsync`
returns, and ends by returning or by throwing. So it can do whatever depends on the state of its
aggregate. The calls concern the aggregate whose id is the key of the command.
-/

namespace IFramework.EventSourcing

/-- A call of a handler that depends on its scope only. -/
inductive HandlerCall (P R : Type) where
  | add
  | onEvent (payload : P)
  | remove
  | publish (event : Event P)
  | publishAnyway (events : List (Event P))
  | finishSaga (sagaResult : Obj P R)
  | setReply (reply : Option (Obj P R))

/-- A handler: its next call, and how it goes on. -/
inductive Handler (S P R : Type) where
  | getByKey (next : Option (Stored S) → Handler S P R)
  | call (c : HandlerCall P R) (next : Handler S P R)
  | return
  | throw (e : Exn P)

section Calls

variable {S P R : Type} (type : AggregateType S P)

/-- The exception of a call on `null`. -/
def nullReferenceException : Exn P :=
  .other "Object reference not set to an instance of an object."
    "Object reference not set to an instance of an object."

/-- The exception of a call of Redis that fails. -/
def redisServerException : Exn P :=
  .other "WRONGTYPE Operation against a key holding the wrong kind of value"
    "WRONGTYPE Operation against a key holding the wrong kind of value"

/-- What a call does to the scope. `OnEvent` and `Remove` need an aggregate. -/
def HandlerCall.perform (s : Scope S P R) : HandlerCall P R → Except (Exn P) (Scope S P R)
  | .add => .ok { s with entry := some (.add (.createInstance type)) }
  | .onEvent payload =>
    match s.entry with
    | some e => .ok { s with entry := some { e with entity := e.entity.onEvent type payload } }
    | none => .error nullReferenceException
  | .remove =>
    match s.entry with
    | some e => .ok { s with entry := some { e with deleted := true } }
    | none => .error nullReferenceException
  | .publish event => .ok { s with bus := s.bus.publish event }
  | .publishAnyway events => .ok { s with bus := s.bus.publishAnyway events }
  | .finishSaga sagaResult => .ok { s with bus := s.bus.finishSaga sagaResult }
  | .setReply reply => .ok { s with reply := reply }

end Calls

section Delegate

variable {S P R : Type}

/-- The `catch` block of the delegate. -/
def handleException (context : CommandContext) (s : Scope S P R) (e : Exn P) : Scope S P R :=
  match e with
  | .domain _ _ domainExceptionEvent =>
    { s with
      reply := some (.exn e)
      bus :=
        match domainExceptionEvent with
        | some event => s.bus.publish event
        | none => s.bus }
  | .other _ baseMessage =>
    { s with
      bus := if context.sagaInfo.isSome then s.bus.finishSaga (.exn e) else s.bus
      reply := some (.exn (.other baseMessage baseMessage)) }

/-- The messages that the delegate collects after `CommitAsync`: the events of the bus, the saga
reply and the reply. -/
def outgoing (context : CommandContext) (s : Scope S P R) : List (Message P R) :=
  s.bus.getEvents.map (fun e => .event e context.messageId context.sagaInfo) ++
    (sagaReplyMessage context.sagaInfo s.bus).toList ++
    (if !isNullOrEmpty context.replyToEndPoint then
      [.reply (s.reply.map wrapMessage) context.messageId (context.replyToEndPoint.getD "")]
    else [])

end Delegate

end IFramework.EventSourcing
