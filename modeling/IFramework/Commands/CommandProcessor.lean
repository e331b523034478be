import IFramework.MessageStores.MessageStore
import IFramework.Theory.Run

/-!
# The command processor over a relational database

A delivery is one call of `CommandProcessor.ConsumeMessage`, by any processor. Its steps are the
lookup of the command, the run of the handler, `SaveCommandAsync` with the commit of the transaction,
and, after an exception, `Rollback` and `SaveFailedCommandAsync`. The steps of all deliveries may be
interleaved in any way; each step on the database is one transaction.

What the handler writes, replies, publishes and throws is chosen anew in each run. `saveFails` and
`failFails` are the failures of a transaction that have nothing to do with the table `Commands`. An
exception of the failure path is caught by the outer `catch`, which only logs it.
-/

namespace IFramework.Commands

open MessageStores

/-- What a run of a handler leaves behind in its scope. -/
structure HandlerRun (W P R : Type) where
  writes : List W
  reply : Option (Obj P R)
  bus : EventBus (Event P) (Obj P R)
  thrown : Option (Exn P)

/-- The next step of a delivery. -/
inductive Point (P R : Type) where
  | begin
  | handle
  | save (reply : Option (Obj P R)) (bus : EventBus (Event P) (Obj P R))
  | fail (e : Exn P) (bus : EventBus (Event P) (Obj P R))
  | ended (messages : List (Message P R))

/-- A call of `ConsumeMessage`. -/
structure Delivery (T W P R : Type) where
  processor : Nat
  context : CommandContext
  tracked : List (Entity T W)
  point : Point P R

/-- The database, and the deliveries so far. -/
structure State (T W P R : Type) where
  database : Database T W
  deliveries : Nat → Delivery T W P R
  deliveryCount : Nat

/-- A step of one delivery, or a new delivery. -/
inductive Action (W P R : Type) where
  | deliver (processor : Nat) (context : CommandContext)
  | lookup (d : Nat)
  | handle (d : Nat) (run : HandlerRun W P R)
  | save (d : Nat)
  | saveFails (d : Nat) (e : Exn P)
  | fail (d : Nat)
  | failFails (d : Nat)

section Messages

variable {P R : Type}

/-- The reply to a command, if it needs one. -/
def replyMessages (context : CommandContext) (reply : Option (Obj P R)) : List (Message P R) :=
  if !isNullOrEmpty context.replyToEndPoint then
    [.reply (reply.map wrapMessage) context.messageId (context.replyToEndPoint.getD "")]
  else []

/-- The messages of a command that has been handled. -/
def handledMessages (context : CommandContext) (reply : Option (Obj P R))
    (bus : EventBus (Event P) (Obj P R)) : List (Message P R) :=
  replyMessages context reply ++
    bus.getEvents.map (fun e => .event e context.messageId context.sagaInfo) ++
    bus.getToPublishAnywayMessages.map (fun e => .event e context.messageId context.sagaInfo) ++
    (sagaReplyMessage context.sagaInfo bus).toList

/-- The messages of a command that has failed. An unknown exception interrupts the saga. -/
def failedMessages (context : CommandContext) (e : Exn P) (bus : EventBus (Event P) (Obj P R)) :
    List (Message P R) :=
  let exceptionMessage : List (Message P R) :=
    (e.domainExceptionEvent.map fun event => .event event context.messageId none).toList
  let bus :=
    match e with
    | .domain _ _ _ => bus
    | .other _ _ => if context.sagaInfo.isSome then bus.finishSaga (.exn e) else bus
  replyMessages context (some (.exn e)) ++
    bus.getToPublishAnywayMessages.map (fun e => .event e context.messageId context.sagaInfo) ++
    exceptionMessage ++ (sagaReplyMessage context.sagaInfo bus).toList

/-- The exception `NoHandlerExists`. -/
def noHandlerExists : Exn P := .other "NoHandlerExists" "NoHandlerExists"

/-- The exception of `SaveChangesAsync` when the primary key is violated; the message of the
database is its base message. -/
def dbUpdateException (violation : String) : Exn P :=
  .other ("An error occurred while saving the entity changes. See the inner exception for details.")
    violation

end Messages

section Steps

variable {T W P R : Type}

/-- The delivery that stands for one that has not been made. -/
def Delivery.none : Delivery T W P R := ⟨0, ⟨"", "", .none, .none⟩, [], .ended []⟩

/-- An empty database. -/
def State.init : State T W P R := ⟨⟨[], []⟩, fun _ => .none, 0⟩

/-- Replace a delivery. -/
abbrev State.setDelivery (s : State T W P R) (d : Nat) (delivery : Delivery T W P R) :
    State T W P R :=
  { s with deliveries := Function.update s.deliveries d delivery }

variable (json : Json T P R) (hasHandler : Nat → Bool) (violation : String)

/-- One action. `hasHandler` says which processors have a handler for the commands. -/
def step (s : State T W P R) : Action W P R → Option (State T W P R)
  | .deliver processor context =>
    some { s.setDelivery s.deliveryCount ⟨processor, context, [], .begin⟩ with
      deliveryCount := s.deliveryCount + 1 }
  | .lookup d =>
    let delivery := s.deliveries d
    match delivery.point with
    | .begin =>
      match getCommandHandledInfoAsync s.database delivery.context.messageId with
      | some command =>
        some (s.setDelivery d
          { delivery with point := .ended (replyMessages delivery.context (command.reply json)) })
      | none =>
        if hasHandler delivery.processor then
          some (s.setDelivery d { delivery with point := .handle })
        else
          some (s.setDelivery d { delivery with
            point := .ended (replyMessages delivery.context (some (.exn noHandlerExists))) })
    | _ => none
  | .handle d run =>
    let delivery := s.deliveries d
    match delivery.point with
    | .handle =>
      some (s.setDelivery d { delivery with
        tracked := delivery.tracked ++ run.writes.map .write
        point :=
          match run.thrown with
          | some e => .fail e run.bus
          | none => .save run.reply run.bus })
    | _ => none
  | .save d =>
    let delivery := s.deliveries d
    match delivery.point with
    | .save reply bus =>
      let tracked := saveCommandAsync json delivery.tracked delivery.context.messageId reply
      match s.database.saveChanges d tracked with
      | some database =>
        some ({ s with database := database }.setDelivery d { delivery with
          tracked := []
          point := .ended (handledMessages delivery.context reply bus) })
      | none =>
        some (s.setDelivery d { delivery with
          tracked := tracked
          point := .fail (dbUpdateException violation) bus })
    | _ => none
  | .saveFails d e =>
    let delivery := s.deliveries d
    match delivery.point with
    | .save reply bus =>
      some (s.setDelivery d { delivery with
        tracked := saveCommandAsync json delivery.tracked delivery.context.messageId reply
        point := .fail e bus })
    | _ => none
  | .fail d =>
    let delivery := s.deliveries d
    match delivery.point with
    | .fail e bus =>
      let tracked := saveFailedCommandAsync json rollback delivery.context.messageId e
      match s.database.saveChanges d tracked with
      | some database =>
        some ({ s with database := database }.setDelivery d { delivery with
          tracked := []
          point := .ended (failedMessages delivery.context e bus) })
      | none => some (s.setDelivery d { delivery with tracked := tracked, point := .ended [] })
    | _ => none
  | .failFails d =>
    let delivery := s.deliveries d
    match delivery.point with
    | .fail e _ =>
      some (s.setDelivery d { delivery with
        tracked := saveFailedCommandAsync json rollback delivery.context.messageId e
        point := .ended [] })
    | _ => none

end Steps

end IFramework.Commands
