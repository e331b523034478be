import IFramework.Message.Basic
import IFramework.Message.MessageSender
import IFramework.MessageStores.DeleteStatement

/-!
# The outbox

With `EnsureArrival` on, the message store writes a row for each message into `UnSentCommands` or
`UnPublishedEvents`, in the transaction of the handler that sends it. Then the messages are handed
to `CommandBus` or `MessagePublisher`. When a message has been produced, its id is put into the
queue of `MessageStoreDaemon`, which deletes the row with the statement of `DeleteStatement`; what
the database makes of its text is a parameter. `MessagePublisher.Start` starts the daemon,
puts a context for every row of `UnPublishedEvents` into its queue and deletes the rows that it
cannot read as an `IMessage`. `CommandBus.Start` starts the sender only; `GetAllUnSentMessages` of
`CommandBus` is called by nobody.

A crash loses everything but the tables and the log of the broker. Messages are identified by their
ids, which are the primary keys of the tables. A row holds its message: that the message is read
back from its JSON text and its type name is assumed. Messages that are sent without being stored
are left out, as are the rows of the other tables.
-/

namespace IFramework.Outboxes

/-! ## Contexts and rows -/

/-- What the store reads of an `IMessageContext`. The message is `none` for a null reply. -/
structure MessageContext (O : Type) where
  messageId : String
  message : Option O
  correlationId : Option String
  replyToEndPoint : Option String
  sagaInfo : Option SagaInfo
  topic : Option String
  key : Option String
  producer : Option String
  deriving DecidableEq, Repr

/-- An `UnSentMessage`: a row of `UnSentCommands` or `UnPublishedEvents`. -/
structure UnSentMessage (O : Type) where
  id : String
  correlationId : Option String
  message : Option O
  replyToEndPoint : Option String
  sagaInfo : SagaInfo
  topic : Option String
  producer : Option String
  deriving DecidableEq, Repr

/-- The objects that are an `IMessage`, with the properties of the interface. -/
structure IMessage (O : Type) where
  isMessage : O → Bool
  id : O → String
  key : O → Option String
  getTopic : O → Option String

section Rows

variable {O : Type}

/-- The constructor. It does not copy the producer. -/
def UnSentMessage.new (context : MessageContext O) : UnSentMessage O where
  id := context.messageId
  correlationId := context.correlationId
  message := context.message
  replyToEndPoint := context.replyToEndPoint
  sagaInfo := context.sagaInfo.getD ⟨none, none⟩
  topic := context.topic
  producer := none

/-- An empty string counts as null. -/
def nonEmpty (s : Option String) : Option String := if isNullOrEmpty s then none else s

/-- `WrapMessage`, with the arguments that `GetAllUnSentMessages` passes. -/
def UnSentMessage.wrapMessage (interface : IMessage O) (row : UnSentMessage O) (message : O) :
    MessageContext O :=
  let messageId := if row.id = "" then interface.id message else row.id
  { messageId := messageId
    message := some message
    correlationId := nonEmpty row.correlationId
    replyToEndPoint := nonEmpty row.replyToEndPoint
    sagaInfo := if isNullOrWhiteSpace row.sagaInfo.sagaId then none else some row.sagaInfo
    topic := (nonEmpty row.topic).or (interface.getTopic message)
    key :=
      if isNullOrWhiteSpace (interface.key message) then some messageId else interface.key message
    producer := row.producer }

/-- The message of a row, if it is an `IMessage`. The type of a null message cannot be looked up. -/
def UnSentMessage.rawMessage (interface : IMessage O) (row : UnSentMessage O) : Option O :=
  row.message.filter interface.isMessage

/-- `GetAllUnSentMessages`: a context for each row that holds an `IMessage`, and the rows that
stay. -/
def getAllUnSentMessages (interface : IMessage O) (rows : List (UnSentMessage O)) :
    List (MessageContext O) × List (UnSentMessage O) :=
  (rows.filterMap fun row => (row.rawMessage interface).map (row.wrapMessage interface),
    rows.filter fun row => (row.rawMessage interface).isSome)

end Rows

/-! ## The writers -/

/-- A transaction of the message store that has been committed. -/
inductive Write (C E : Type) where
  | saveCommandAsync (commandId : Option String) (messageContexts : List (MessageContext E))
  | saveFailedCommandAsync (commandId : Option String) (eventContexts : List (MessageContext E))
  | handleEventAsync (eventId : String) (commandContexts : List (MessageContext C))
      (messageContexts : List (MessageContext E))
  | saveFailHandledEventAsync (eventId : String) (messageContexts : List (MessageContext E))
  deriving DecidableEq, Repr

section Writers

variable {C E O : Type}

/-- Each writer sets the correlation id of the contexts before it adds their rows. -/
def correlate (messageId : Option String) (contexts : List (MessageContext O)) :
    List (MessageContext O) :=
  contexts.map fun context => { context with correlationId := messageId }

/-- The contexts for which rows are added to `UnSentCommands`. -/
def Write.commandContexts : Write C E → List (MessageContext C)
  | .handleEventAsync eventId contexts _ => correlate (some eventId) contexts
  | _ => []

/-- The contexts for which rows are added to `UnPublishedEvents`. -/
def Write.messageContexts : Write C E → List (MessageContext E)
  | .saveCommandAsync commandId contexts => correlate commandId contexts
  | .saveFailedCommandAsync commandId contexts => correlate commandId contexts
  | .handleEventAsync eventId _ contexts => correlate (some eventId) contexts
  | .saveFailHandledEventAsync eventId contexts => correlate (some eventId) contexts

end Writers

/-! ## One table and its sender -/

/-- A table, the rows that were ever stored in it, the contexts that were committed and are to be
handed to the sender, the sender, and the ids of the messages that were produced. -/
structure Channel (O : Type) where
  rows : List (UnSentMessage O)
  stored : List (UnSentMessage O)
  pending : List (List (MessageContext O))
  sender : MessageSender (MessageContext O)
  sent : List String
  deriving DecidableEq, Repr

namespace Channel

variable {O : Type}

/-- An empty table and a sender that is not started. -/
def new : Channel O := ⟨[], [], [], .new, []⟩

/-- The rows of the contexts can be inserted: no primary key would be there twice. -/
def CanStore (c : Channel O) (contexts : List (MessageContext O)) : Prop :=
  ((c.rows ++ contexts.map UnSentMessage.new).map UnSentMessage.id).Nodup

instance (c : Channel O) (contexts : List (MessageContext O)) : Decidable (c.CanStore contexts) :=
  inferInstanceAs (Decidable (List.Nodup _))

/-- The commit of the rows of the contexts. -/
def store (c : Channel O) (contexts : List (MessageContext O)) : Channel O :=
  { c with rows := c.rows ++ contexts.map UnSentMessage.new,
           stored := c.stored ++ contexts.map UnSentMessage.new,
           pending := c.pending ++ [contexts] }

/-- `SendAsync` with the states of a transaction that has been committed. -/
def submit (c : Channel O) (position : Nat) : Option (Channel O) :=
  c.pending[position]?.map fun contexts =>
    { c with pending := c.pending.eraseIdx position,
             sender := contexts.foldl MessageSender.add c.sender }

/-- A step of the sender, with the id for which `CompleteSendingMessage` calls the daemon. -/
def send (c : Channel O) :
    MessageSender.Action (MessageContext O) → Option (Channel O × Option String)
  | .add _ => none
  | .start => none
  | .succeed position =>
    match c.sender.calls[position]?, c.sender.step (.succeed position) with
    | some send, some sender =>
      let id := send.queued.state.messageId
      some ({ c with sender := sender, sent := c.sent ++ [id] }, some id)
    | _, _ => none
  | a => (c.sender.step a).map fun sender => ({ c with sender := sender }, none)

/-- The rows with one of the ids are deleted. -/
def remove (c : Channel O) (ids : List String) : Channel O :=
  { c with rows := c.rows.filter fun row => row.id ∉ ids }

/-- Every row that holds an `IMessage` is added to the queue; the others are deleted. -/
def recover (interface : IMessage O) (c : Channel O) : Channel O :=
  let unSent := getAllUnSentMessages interface c.rows
  { c with rows := unSent.2, sender := unSent.1.foldl MessageSender.add c.sender }

/-- What is left after a crash. -/
def crash (c : Channel O) : Channel O := { c with pending := [], sender := .new }

end Channel

/-! ## The whole -/

/-- A `ToRemoveMessage`. -/
structure ToRemoveMessage where
  messageId : String
  type : MessageType
  deriving DecidableEq, Repr

/-- The tables with `CommandBus` and `MessagePublisher`, and the daemon. -/
structure Outbox (C E : Type) where
  commands : Channel C
  events : Channel E
  toRemoveMessages : List ToRemoveMessage
  daemonRunning : Bool
  deriving DecidableEq, Repr

/-- The tables of the database. -/
abbrev Tables (C E : Type) := List (UnSentMessage C) × List (UnSentMessage E)

/-- The steps of the processors, of the senders and of the daemon, and the start and the crash of
the process. -/
inductive Action (C E : Type) where
  /-- A transaction is committed. -/
  | commit (write : Write C E)
  /-- `CommandBus.SendMessageStates` for the commands of a transaction. -/
  | sendMessageStates (position : Nat)
  /-- `MessagePublisher.SendAsync` for the messages of a transaction. -/
  | sendAsync (position : Nat)
  | commandBus (a : MessageSender.Action (MessageContext C))
  | messagePublisher (a : MessageSender.Action (MessageContext E))
  /-- The daemon takes some ids and executes its two statements; each of them can fail. -/
  | removeMessages (count : Nat) (commandsRemoved eventsRemoved : Bool)
  | startCommandBus
  | startMessagePublisher
  | crash
  deriving DecidableEq, Repr

namespace Outbox

variable {C E : Type}

/-- Empty tables. -/
def init : Outbox C E := ⟨.new, .new, [], false⟩

/-- The ids of one type among the first `count` entries of the daemon's queue. -/
def removedIds (s : Outbox C E) (count : Nat) (type : MessageType) : List String :=
  ((s.toRemoveMessages.take count).filter fun m => m.type = type).map ToRemoveMessage.messageId

/-- One of the two statements is executed. -/
def removeUnSent (database : Database (Tables C E)) (s : Outbox C E) (type : MessageType)
    (ids : List String) : Option (Outbox C E) :=
  (Outboxes.removeUnSent database type ids (s.commands.rows, s.events.rows)).map fun tables =>
    { s with commands := { s.commands with rows := tables.1 }
             events := { s.events with rows := tables.2 } }

/-- `RemoveMessages`: one round of the loop. -/
def removeMessages (database : Database (Tables C E)) (s : Outbox C E) (count : Nat)
    (commandsRemoved eventsRemoved : Bool) : Option (Outbox C E) :=
  let taken := { s with toRemoveMessages := s.toRemoveMessages.drop count }
  (if commandsRemoved then taken.removeUnSent database .command (s.removedIds count .command)
    else some taken).bind fun s' =>
      if eventsRemoved then s'.removeUnSent database .event (s.removedIds count .event) else some s'

/-- `MessagePublisher.Start`. -/
def startMessagePublisher (interface : IMessage E) (s : Outbox C E) : Outbox C E :=
  let events := s.events.recover interface
  { s with events := { events with sender := { events.sender with running := true } }
           daemonRunning := true }

/-- What is left after a crash. -/
def crash (s : Outbox C E) : Outbox C E :=
  { commands := s.commands.crash, events := s.events.crash, toRemoveMessages := []
    daemonRunning := false }

/-- One step. `interface` says which of the published objects are an `IMessage`. -/
def step (database : Database (Tables C E)) (interface : IMessage E) (s : Outbox C E) :
    Action C E → Option (Outbox C E)
  | .commit write =>
    if s.commands.CanStore write.commandContexts ∧ s.events.CanStore write.messageContexts then
      some { s with commands := s.commands.store write.commandContexts
                    events := s.events.store write.messageContexts }
    else none
  | .sendMessageStates position =>
    (s.commands.submit position).map fun commands => { s with commands := commands }
  | .sendAsync position =>
    (s.events.submit position).map fun events => { s with events := events }
  | .commandBus a =>
    (s.commands.send a).map fun result =>
      { s with commands := result.1
               toRemoveMessages := s.toRemoveMessages ++ (result.2.map (⟨·, .command⟩)).toList }
  | .messagePublisher a =>
    (s.events.send a).map fun result =>
      { s with events := result.1
               toRemoveMessages := s.toRemoveMessages ++ (result.2.map (⟨·, .event⟩)).toList
               -- `MessagePublisher.Stop` stops the daemon too.
               daemonRunning :=
                 match a with
                 | .stop => false
                 | _ => s.daemonRunning }
  | .removeMessages count commandsRemoved eventsRemoved =>
    if s.daemonRunning ∧ 0 < count ∧ count ≤ 10 ∧ count ≤ s.toRemoveMessages.length then
      s.removeMessages database count commandsRemoved eventsRemoved
    else none
  | .startCommandBus =>
    (s.commands.sender.step .start).map fun sender =>
      { s with commands := { s.commands with sender := sender } }
  | .startMessagePublisher =>
    if s.events.sender.running then none else some (s.startMessagePublisher interface)
  | .crash => some s.crash

end Outbox

end IFramework.Outboxes
