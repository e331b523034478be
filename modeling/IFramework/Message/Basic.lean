import IFramework.Event.EventBus

/-!
# Messages

What the command processors share: events, exceptions, the context of a command, and the messages
that are handed to the publisher.
-/

namespace IFramework

/-- An `IEvent`. `OnEvent` writes the version of an `IAggregateRootEvent`, an `int` that counts
batches: a natural number as long as there are fewer than `2^31 - 1` of them. -/
structure Event (P : Type) where
  version : Nat
  payload : P
  deriving DecidableEq, Repr

/-- `ErrorCode`, or an error code of the application. -/
inductive ErrorCode where
  | duplicatedObject
  | code (value : Int)
  deriving DecidableEq, Repr

/-- An exception: a `DomainException`, or another one with the message of its base exception. -/
inductive Exn (P : Type) where
  | domain (errorCode : ErrorCode) (message : String) (domainExceptionEvent : Option (Event P))
  | other (message : String) (baseMessage : String)
  deriving DecidableEq, Repr

/-- What a reply or a saga result can be. -/
inductive Obj (P R : Type) where
  | value (r : R)
  | exn (e : Exn P)
  deriving DecidableEq, Repr

/-- A `SagaInfo`. -/
structure SagaInfo where
  sagaId : Option String
  replyEndPoint : Option String
  deriving DecidableEq, Repr

/-- What a command processor reads of the `IMessageContext` of a command. -/
structure CommandContext where
  messageId : String
  key : String
  replyToEndPoint : Option String
  sagaInfo : Option SagaInfo
  deriving DecidableEq, Repr

section Messages

variable {P R : Type}

/-- The `DomainExceptionEvent` of an exception. -/
def Exn.domainExceptionEvent : Exn P → Option (Event P)
  | .domain _ _ event => event
  | .other _ _ => none

/-- A message that is handed to the publisher. -/
inductive Message (P R : Type) where
  | event (message : Event P) (correlationId : String) (sagaInfo : Option SagaInfo)
  | sagaReply (message : Obj P R) (topic : String) (sagaInfo : SagaInfo)
  | reply (message : Option (Obj P R)) (correlationId topic : String)

/-- `WrapMessage` replaces an exception by one that holds its message only. -/
def wrapMessage : Obj P R → Obj P R
  | .exn (.domain errorCode message _) => .exn (.domain errorCode message none)
  | .exn (.other _ baseMessage) => .exn (.other baseMessage baseMessage)
  | .value r => .value r

/-- `string.IsNullOrEmpty`. -/
def isNullOrEmpty (s : Option String) : Bool := decide (s = none ∨ s = some "")

/-- `GetSagaReplyMessageState`. -/
def sagaReplyMessage (sagaInfo : Option SagaInfo) (bus : EventBus (Event P) (Obj P R)) :
    Option (Message P R) :=
  match sagaInfo, bus.getSagaResult with
  | some info, some sagaResult =>
    if !isNullOrWhiteSpace info.sagaId ∧ !isNullOrEmpty info.replyEndPoint then
      some (.sagaReply (wrapMessage sagaResult) (info.replyEndPoint.getD "") info)
    else none
  | _, _ => none

/-- The event in a message. -/
def Message.event? : Message P R → Option (Event P)
  | .event e _ _ => some e
  | _ => none

end Messages

end IFramework
