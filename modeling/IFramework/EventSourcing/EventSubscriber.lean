import IFramework.EventSourcing.HandleEvent
import IFramework.Message.Basic

/-!
# The event subscriber over an event store

`EventSourcingEventSubscriber.ConsumeMessage` goes through the handlers of an event. Each handler
has its own scope with an event bus, and what it leaves there is recorded by `HandleEvent` together
with the reply in the context of the event. That context is the same for all handlers: a handler
that fails writes its exception into it, where it stays for the handlers behind it. What is sent is
what `HandleEvent` returns, which for a subscription that the event was recorded for is the earlier
record; handlers with the same full name have one subscription.

A `HandlerRun` is what one handler does. `records_agree_iff` compares two runs of the loop in which
all handlers but one may do anything: when what is recorded and sent for that one is the same.
-/

namespace IFramework.HandledEvents

section Subscriber

variable {T Ty O M : Type} {rt : Runtime Ty O}

/-! ## The handlers -/

/-- An exception of a handler: a `DomainException` with its event, or another one with the exception
that has its base message only. -/
inductive HandlerException (rt : Runtime Ty O) where
  | domain (e : O) (domainExceptionEvent : Option {o : O // rt.isEvent o = true})
  | other (e withBaseMessage : O)

/-- What a handler does: what it puts on the bus of its scope, and whether it throws then. -/
structure HandlerRun (rt : Runtime Ty O) where
  commands : List {o : O // rt.isCommand o = true}
  bus : EventBus {o : O // rt.isEvent o = true} O
  exception : Option (HandlerException rt)

/-- The messages of a scope. -/
structure Scope (rt : Runtime Ty O) where
  commands : List {o : O // rt.isCommand o = true}
  bus : EventBus {o : O // rt.isEvent o = true} O

/-- What is on the bus behind the `catch` block. -/
def HandlerRun.scope (run : HandlerRun rt) (sagaInfo : Option SagaInfo) : Scope rt :=
  match run.exception with
  | none => ⟨run.commands, run.bus⟩
  | some (.domain _ domainExceptionEvent) =>
    let bus := run.bus.clearMessages true
    match domainExceptionEvent with
    | some event => ⟨[], bus.publish event⟩
    | none => ⟨[], bus⟩
  | some (.other e _) =>
    let bus := run.bus.clearMessages true
    if sagaInfo.isSome then ⟨[], bus.finishSaga e⟩ else ⟨[], bus⟩

/-- What the `catch` block writes into `eventContext.Reply`. -/
def HandlerRun.reply (run : HandlerRun rt) : Option O :=
  match run.exception with
  | none => none
  | some (.domain e _) => some e
  | some (.other _ withBaseMessage) => some withBaseMessage

/-- A handler, by the full name of its class, with what it does. -/
structure HandlerCall (rt : Runtime Ty O) where
  fullName : String
  run : HandlerRun rt

/-- What a subscriber reads of the `IMessageContext` of an event; the reply is that before the first
handler. -/
structure EventContext (O : Type) where
  messageId : String
  message : Option O
  sagaInfo : Option SagaInfo
  reply : Option O

/-- An `EventSourcingEventSubscriber`, with what it uses of the command bus and of the queue client.
Each `wrap…` gives a message, or nothing where it throws, as it does without a command bus. -/
structure EventSubscriber (O M : Type) where
  subscriptionName : String
  wrapCommand : Option SagaInfo → Option O → Option M
  wrapEvent : Option SagaInfo → Option O → Option M
  wrapSagaReply : SagaInfo → String → O → Option M
  hasMessagePublisher : Bool

/-- The messages that are handed to the command bus and to the publisher. -/
structure Sent (M : Type) where
  commands : List M
  events : List M
  deriving DecidableEq, Repr

/-- What is recorded and sent for a handler. Nothing is sent where `HandleEvent` or a `wrap…` has
thrown. -/
structure Record (rt : Runtime Ty O) (M : Type) where
  arguments : Arguments rt
  sent : Option (Sent M)

/-- The hashes of the store and `eventContext.Reply`. -/
structure LoopState (T O : Type) where
  db : Hashes T
  reply : Option O

variable (json : Json T Ty O) (provider : MessageTypeProvider Ty) (subscriber : EventSubscriber O M)
  (context : EventContext O)

/-! ## The loop -/

/-- The reply to the saga, if it is sent. -/
def sagaReply (result : Handled O) : Option (List M) :=
  match context.sagaInfo, result.sagaResult with
  | some info, some sagaResult =>
    if !isNullOrWhiteSpace info.sagaId ∧ !isNullOrEmpty info.replyEndPoint then
      (subscriber.wrapSagaReply info (info.replyEndPoint.getD "") sagaResult).map fun m => [m]
    else some []
  | _, _ => some []

/-- What is sent for the result of `HandleEvent`. -/
def send (result : Handled O) : Option (Sent M) := do
  let commands ← result.commands.mapM (subscriber.wrapCommand context.sagaInfo)
  let events ← result.events.mapM (subscriber.wrapEvent context.sagaInfo)
  let reply ← sagaReply subscriber context result
  return ⟨commands, if subscriber.hasMessagePublisher then events ++ reply else []⟩

/-- The name of the subscription of a handler. -/
def subscriptionName (call : HandlerCall rt) : String :=
  subscriber.subscriptionName ++ "." ++ call.fullName

/-- The arguments of `HandleEvent` for a handler, with the reply that it finds. -/
def handlerArguments (reply : Option O) (call : HandlerCall rt) : Arguments rt where
  subscriber := subscriptionName subscriber call
  eventId := context.messageId
  commands := (call.run.scope context.sagaInfo).commands
  events := (call.run.scope context.sagaInfo).bus.getEvents
  sagaResult := (call.run.scope context.sagaInfo).bus.getSagaResult
  eventResult := call.run.reply.or reply

/-- The body of the loop. -/
def handle (s : LoopState T O) (call : HandlerCall rt) : Record rt M × LoopState T O :=
  let args := handlerArguments subscriber context s.reply call
  let result := handleEvent json provider s.db args
  (⟨args, result.1.toOption.bind (send subscriber context)⟩,
    ⟨result.2, call.run.reply.or s.reply⟩)

/-- The loop; an exception behind the handler leaves it. -/
def handleAll (s : LoopState T O) : List (HandlerCall rt) → List (Record rt M)
  | [] => []
  | call :: calls =>
    let r := handle json provider subscriber context s call
    r.1 :: if r.1.sent.isSome then handleAll r.2 calls else []

/-- `ConsumeMessage`, with what the handlers of the event do: the records of those that are
reached. -/
def consumeMessage (db : Hashes T) (calls : List (HandlerCall rt)) : List (Record rt M) :=
  match context.message with
  | none => []
  | some _ => handleAll json provider subscriber context ⟨db, context.reply⟩ calls

/-! ## What a handler finds -/

/-- The reply that these handlers leave: that of the last one that fails. -/
def replyAfter (reply : Option O) (calls : List (HandlerCall rt)) : Option O :=
  calls.foldl (fun reply call => call.run.reply.or reply) reply

/-- The record for a subscription after these handlers: the one there was, or that of the first of
them with this subscription. -/
def recordAfter (subscription : String) : Option T → Option O → List (HandlerCall rt) → Option T
  | text, _, [] => text
  | text, reply, call :: calls =>
    recordAfter subscription
      (text.or (if subscriptionName subscriber call = subscription then
        some (json.ofMessages
          ((handlerArguments subscriber context reply call).messages json provider)) else none))
      (call.run.reply.or reply) calls

/-- The state of the loop after these handlers. -/
def loopAfter (s : LoopState T O) (calls : List (HandlerCall rt)) : LoopState T O :=
  calls.foldl (fun s call => (handle json provider subscriber context s call).2) s

variable (rt) in
/-- What is sent for a text that was recorded before. -/
def readBack (text : T) : Option (Sent M) :=
  (readMessages rt json provider (some text)).toOption.bind (send subscriber context)

variable {json} {provider} {subscriber} {context}

theorem reply_loopAfter (s : LoopState T O) (calls : List (HandlerCall rt)) :
    (loopAfter json provider subscriber context s calls).reply = replyAfter s.reply calls := by
  induction calls generalizing s with
  | nil => rfl
  | cons call calls ih => exact ih (handle json provider subscriber context s call).2

/-- A call of `HandleEvent` sets its field unless it is set, and no other one. -/
theorem handleEvent_text (db : Hashes T) (args : Arguments rt) (subscription : String) :
    (handleEvent json provider db args).2 subscription args.eventId =
      (db subscription args.eventId).or (if args.subscriber = subscription then
        some (json.ofMessages (args.messages json provider)) else none) := by
  by_cases hsubscription : args.subscriber = subscription
  · subst hsubscription
    rw [if_pos rfl]
    cases hfield : db args.subscriber args.eventId with
    | none => exact (handleEvent_of_none hfield).2
    | some text => exact handleEvent_keeps hfield args
  · rw [if_neg hsubscription, Option.or_none]
    cases hfield : db args.subscriber args.eventId with
    | none =>
      simp [handleEvent, handleEventLuaScript_of_none hfield,
        Function.update_of_ne (Ne.symm hsubscription)]
    | some text => simp [handleEvent, handleEventLuaScript_of_some hfield]

theorem db_loopAfter (s : LoopState T O) (calls : List (HandlerCall rt)) (subscription : String) :
    (loopAfter json provider subscriber context s calls).db subscription context.messageId =
      recordAfter json provider subscriber context subscription
        (s.db subscription context.messageId) s.reply calls := by
  induction calls generalizing s with
  | nil => rfl
  | cons call calls ih =>
    rw [loopAfter, List.foldl_cons]
    refine (ih (handle json provider subscriber context s call).2).trans ?_
    exact congrArg (recordAfter json provider subscriber context subscription · _ calls)
      (handleEvent_text s.db (handlerArguments subscriber context s.reply call) subscription)

/-- A handler that is reached is run in the state that the handlers before it leave. -/
theorem exists_of_getElem?_handleAll {s : LoopState T O} {calls : List (HandlerCall rt)} {j : Nat}
    {r : Record rt M} {call : HandlerCall rt} (hcall : calls[j]? = some call)
    (hr : (handleAll json provider subscriber context s calls)[j]? = some r) :
    r = (handle json provider subscriber context
      (loopAfter json provider subscriber context s (calls.take j)) call).1 := by
  induction calls generalizing s j with
  | nil => simp at hcall
  | cons head calls ih =>
    cases j with
    | zero =>
      rw [List.getElem?_cons_zero] at hcall
      obtain rfl := Option.some.inj hcall
      rw [handleAll, List.getElem?_cons_zero] at hr
      exact (Option.some.inj hr).symm
    | succ j =>
      rw [List.getElem?_cons_succ] at hcall
      rw [handleAll, List.getElem?_cons_succ] at hr
      split at hr
      · exact ih hcall hr
      · simp at hr

/-- What is recorded and sent for a handler, by what it finds. -/
theorem handle_eq (s : LoopState T O) (call : HandlerCall rt) :
    (handle json provider subscriber context s call).1 =
      ⟨handlerArguments subscriber context s.reply call,
        (s.db (subscriptionName subscriber call) context.messageId).elim
          (send subscriber context (handlerArguments subscriber context none call).handled)
          (readBack rt json provider subscriber context)⟩ := by
  let args := handlerArguments subscriber context s.reply call
  have hfield : s.db args.subscriber args.eventId =
      s.db (subscriptionName subscriber call) context.messageId := rfl
  cases htext : s.db (subscriptionName subscriber call) context.messageId with
  | none =>
    have hresult : (handleEvent json provider s.db args).1 = .ok args.handled :=
      (handleEvent_of_none (hfield.trans htext)).1
    rw [handle, hresult]
    rfl
  | some text =>
    have hresult : (handleEvent json provider s.db args).1 =
        readMessages rt json provider (some text) := handleEvent_of_some (hfield.trans htext)
    rw [handle, hresult]
    rfl

/-- Whether an event is recorded for a subscription depends on the names of the handlers only. -/
theorem isSome_recordAfter {calls calls' : List (HandlerCall rt)}
    (hnames : calls.map HandlerCall.fullName = calls'.map HandlerCall.fullName)
    (subscription : String) {text text' : Option T} (htext : text.isSome = text'.isSome)
    (reply reply' : Option O) :
    (recordAfter json provider subscriber context subscription text reply calls).isSome =
      (recordAfter json provider subscriber context subscription text' reply' calls').isSome := by
  induction calls generalizing calls' text text' reply reply' with
  | nil =>
    cases calls' with
    | nil => exact htext
    | cons call' calls' => cases hnames
  | cons call calls ih =>
    cases calls' with
    | nil => cases hnames
    | cons call' calls' =>
      obtain ⟨hname, hnames⟩ := List.cons.inj hnames
      have hsubscription : subscriptionName subscriber call = subscriptionName subscriber call' :=
        congrArg (subscriber.subscriptionName ++ "." ++ ·) hname
      refine ih hnames ?_ _ _
      rw [Option.isSome_or, Option.isSome_or, htext, hsubscription]
      split <;> rfl

/-- The arguments depend on the reply that is found unless the handler throws. -/
theorem handlerArguments_eq_iff (call : HandlerCall rt) (reply reply' : Option O) :
    handlerArguments subscriber context reply call =
        handlerArguments subscriber context reply' call ↔
      call.run.reply ≠ none ∨ reply = reply' := by
  cases hreply : call.run.reply with
  | none => simp [handlerArguments, hreply]
  | some e => simp [handlerArguments, hreply]

omit json provider subscriber context in
theorem elim_eq_elim_iff {α β : Type} {x y : Option α} (h : x.isSome = y.isSome) (b : β)
    (f : α → β) : x.elim b f = y.elim b f ↔ ∀ a a', x = some a → y = some a' → f a = f a' := by
  cases x with
  | none =>
    cases y with
    | none => simp
    | some a' => cases h
  | some a =>
    cases y with
    | none => cases h
    | some a' => simp

/-- For every event, all handlers and any two runs that agree about one handler that both reach:
what is recorded and sent for it is the same in both exactly when it throws itself or the last
handler before it that fails leaves the same reply, and a record that was made for its subscription
before gives the same messages. -/
theorem records_agree_iff (db : Hashes T) {calls calls' : List (HandlerCall rt)}
    (hnames : calls.map HandlerCall.fullName = calls'.map HandlerCall.fullName) {j : Nat}
    {call : HandlerCall rt} (hcall : calls[j]? = some call) (hcall' : calls'[j]? = some call)
    {r r' : Record rt M}
    (hr : (consumeMessage json provider subscriber context db calls)[j]? = some r)
    (hr' : (consumeMessage json provider subscriber context db calls')[j]? = some r') :
    r = r' ↔
      (call.run.reply ≠ none ∨
        replyAfter context.reply (calls.take j) = replyAfter context.reply (calls'.take j)) ∧
      ∀ text text',
        recordAfter json provider subscriber context (subscriptionName subscriber call)
          (db (subscriptionName subscriber call) context.messageId) context.reply
          (calls.take j) = some text →
        recordAfter json provider subscriber context (subscriptionName subscriber call)
          (db (subscriptionName subscriber call) context.messageId) context.reply
          (calls'.take j) = some text' →
        readBack rt json provider subscriber context text =
          readBack rt json provider subscriber context text' := by
  cases hmessage : context.message with
  | none => simp [consumeMessage, hmessage] at hr
  | some message =>
    simp only [consumeMessage, hmessage] at hr hr'
    rw [exists_of_getElem?_handleAll hcall hr, exists_of_getElem?_handleAll hcall' hr', handle_eq,
      handle_eq, db_loopAfter, db_loopAfter, reply_loopAfter, reply_loopAfter, Record.mk.injEq,
      handlerArguments_eq_iff]
    refine and_congr_right fun _ => ?_
    have hnames' : (calls.take j).map HandlerCall.fullName =
        (calls'.take j).map HandlerCall.fullName := by
      rw [List.map_take, List.map_take, hnames]
    exact elim_eq_elim_iff (isSome_recordAfter hnames' _ rfl _ _) _ _

end Subscriber

/-! ## A sample subscriber -/

/-- A subscriber that sends what it is given. -/
def sampleSubscriber : EventSubscriber Sample Sample :=
  ⟨"Billing", fun _ o => o, fun _ o => o, fun _ _ o => some o, true⟩

/-- The context of an event that is no part of a saga. -/
def sampleContext : EventContext Sample :=
  ⟨"event-1", some ⟨.orderPlaced, "1"⟩, none, none⟩

/-- A handler that sends nothing and does not throw. -/
def sampleRun : HandlerRun sampleRuntime := ⟨[], .new, none⟩

/-- A handler that throws a `DomainException` without an event. -/
def rejectingRun : HandlerRun sampleRuntime :=
  ⟨[], .new, some (.domain ⟨.orderResult, "rejected"⟩ none)⟩

/-- Two handlers, with what the first one does. -/
def sampleCalls (first : HandlerRun sampleRuntime) : List (HandlerCall sampleRuntime) :=
  [⟨"Stock", first⟩, ⟨"Mail", sampleRun⟩]

/-- What is recorded and sent for the second of them. -/
def sampleRecord (reply : Option Sample) : Record sampleRuntime Sample :=
  ⟨⟨"Billing.Mail", "event-1", [], [], none, reply⟩, some ⟨[], []⟩⟩

theorem records_agree_iff_of_rejecting :
    sampleRecord (some ⟨.orderResult, "rejected"⟩) = sampleRecord none ↔
      (sampleRun.reply ≠ none ∨
        replyAfter sampleContext.reply ((sampleCalls rejectingRun).take 1) =
          replyAfter sampleContext.reply ((sampleCalls sampleRun).take 1)) ∧
      ∀ text text',
        recordAfter sampleJson sampleProvider sampleSubscriber sampleContext "Billing.Mail" none
          sampleContext.reply ((sampleCalls rejectingRun).take 1) = some text →
        recordAfter sampleJson sampleProvider sampleSubscriber sampleContext "Billing.Mail" none
          sampleContext.reply ((sampleCalls sampleRun).take 1) = some text' →
        readBack sampleRuntime sampleJson sampleProvider sampleSubscriber sampleContext text =
          readBack sampleRuntime sampleJson sampleProvider sampleSubscriber sampleContext
            text' := by
  have hnames : (sampleCalls rejectingRun).map HandlerCall.fullName =
      (sampleCalls sampleRun).map HandlerCall.fullName := rfl
  have hcall : (sampleCalls rejectingRun)[1]? = some ⟨"Mail", sampleRun⟩ := rfl
  have hcall' : (sampleCalls sampleRun)[1]? = some ⟨"Mail", sampleRun⟩ := rfl
  have hr : (consumeMessage sampleJson sampleProvider sampleSubscriber sampleContext
      (fun _ _ => none) (sampleCalls rejectingRun))[1]? =
        some (sampleRecord (some ⟨.orderResult, "rejected"⟩)) := rfl
  have hr' : (consumeMessage sampleJson sampleProvider sampleSubscriber sampleContext
      (fun _ _ => none) (sampleCalls sampleRun))[1]? = some (sampleRecord none) := rfl
  exact records_agree_iff (fun _ _ => none) hnames hcall hcall' hr hr'

/-- The exception of the first handler is recorded as the result of the second one, which did not
throw. -/
theorem records_differ_of_rejecting :
    (sampleCalls rejectingRun).map HandlerCall.fullName =
        (sampleCalls sampleRun).map HandlerCall.fullName ∧
      (sampleCalls rejectingRun)[1]? = (sampleCalls sampleRun)[1]? ∧
      ∃ r r',
        (consumeMessage sampleJson sampleProvider sampleSubscriber sampleContext
          (fun _ _ => none) (sampleCalls rejectingRun))[1]? = some r ∧
        (consumeMessage sampleJson sampleProvider sampleSubscriber sampleContext
          (fun _ _ => none) (sampleCalls sampleRun))[1]? = some r' ∧
        r.arguments.eventResult = some ⟨.orderResult, "rejected"⟩ ∧
        r'.arguments.eventResult = none :=
  ⟨rfl, rfl, _, _, rfl, rfl, rfl, rfl⟩

end IFramework.HandledEvents
