import IFramework.MessageStores.ExecuteInTransaction
import IFramework.Theory.Accumulate
import Mathlib.Tactic.MkIffOfInductiveProp

/-!
# Which transient faults go unnoticed

The bus and the lists of a scope outlive an attempt, and nothing clears them before the next one. So
what a failed attempt has published, sent or wrapped is handed over once more by the last attempt,
unless the handler clears the bus before it is collected.
-/

namespace IFramework.TransientFaults

open EventSubscribers (EventContext CommandMessage)

variable {W C M P R : Type}

/-! ## The condition -/

/-- The call clears the events, the commands and the saga result of the bus. -/
@[simp] def Call.clears : Call W C P R → Bool
  | .handler (.clearMessages _) => true
  | _ => false

/-- The call clears the publish-anyway events of the bus. -/
@[simp] def Call.clearsAnyway : Call W C P R → Bool
  | .handler (.clearMessages clearAnyway) => clearAnyway
  | _ => false

/-- The call collects the events of the bus. -/
@[simp] def Call.collectsEvents : Call W C P R → Bool
  | .addEvents => true
  | _ => false

/-- The call collects the publish-anyway events of the bus. -/
@[simp] def Call.collectsAnyway : Call W C P R → Bool
  | .addPublishAnywayEvents => true
  | _ => false

/-- The call collects the commands of the bus. -/
@[simp] def Call.collectsCommands : Call W C P R → Bool
  | .addCommands => true
  | _ => false

/-- What is on the bus before the calls is cleared before it is collected, or not collected at
all. -/
@[simp] def neverCollected (clears collects : Call W C P R → Bool) : List (Call W C P R) → Bool
  | [] => true
  | call :: calls => clears call || (!collects call && neverCollected clears collects calls)

/-- The call sets the saga result. -/
def Call.finishesSaga : Call W C P R → Bool
  | .handler (.finishSaga _) => true
  | _ => false

/-- Whether the saga is finished behind the calls, which found it `finished` or not. -/
def sagaFinished : Bool → List (Call W C P R) → Bool
  | finished, [] => finished
  | finished, call :: calls =>
    sagaFinished (call.finishesSaga || (finished && !call.clears)) calls

/-- The processor wraps a reply. -/
def Consumer.needReply : Consumer M → Bool
  | .commandProcessor context => !isNullOrEmpty context.replyToEndPoint
  | .eventSubscriber _ _ => false

/-- The processor wraps the result of a saga that is finished. -/
def Consumer.needSagaReply (consumer : Consumer M) : Bool :=
  match consumer.sagaInfo with
  | some info => !isNullOrWhiteSpace info.sagaId && !isNullOrEmpty info.replyEndPoint
  | none => false

/-- The messages after the calls. -/
def Messages.execs (consumer : Consumer M) (m : Messages C P R) (calls : List (Call W C P R)) :
    Messages C P R :=
  calls.foldl (Messages.exec consumer) m

/-- A call of a failed attempt leaves nothing behind that is handed over: what it puts on the bus is
cleared before it is collected, and it wraps no reply. `before` are the calls that were made before
it, `after` those that are made after it. -/
def Silent (consumer : Consumer M) (before after : List (Call W C P R)) : Call W C P R → Prop
  | .handler (.publish _) => neverCollected Call.clears Call.collectsEvents after = true
  | .handler (.publishAnyway events) =>
    events = [] ∨ neverCollected Call.clearsAnyway Call.collectsAnyway after = true
  | .handler (.sendCommand _) => neverCollected Call.clears Call.collectsCommands after = true
  | .addReply => consumer.needReply = false
  | .addSagaReply => consumer.needSagaReply = false ∨ sagaFinished false before = false
  | _ => True

/-- Every call of the failed attempts is silent, `after` being the calls of the last attempt. -/
def AllSilent (consumer : Consumer M) (before failed after : List (Call W C P R)) : Prop :=
  match failed with
  | [] => True
  | call :: failed =>
    Silent consumer before (failed ++ after) call ∧
      AllSilent consumer (before ++ [call]) failed after

/-- The calls of all attempts that fail. -/
def failedCalls (consumer : Consumer M) (handler : List (HandlerCall W C P R))
    (failures : List FailedAttempt) : List (Call W C P R) :=
  failures.flatMap fun failure => failure.calls consumer handler

/-! ## The messages -/

section Messages

variable {consumer : Consumer M} {m : Messages C P R} {calls : List (Call W C P R)}

@[simp] theorem Messages.execs_nil : m.execs consumer ([] : List (Call W C P R)) = m := rfl

@[simp] theorem Messages.execs_cons (call : Call W C P R) :
    m.execs consumer (call :: calls) = (m.exec consumer call).execs consumer calls := rfl

@[simp] theorem Messages.execs_append (calls' : List (Call W C P R)) :
    m.execs consumer (calls ++ calls') = (m.execs consumer calls).execs consumer calls' :=
  List.foldl_append

theorem replyMessages_eq_nil_iff (reply : Option (Obj P R)) :
    consumer.replyMessages reply = [] ↔ consumer.needReply = false := by
  cases consumer with
  | eventSubscriber => simp [Consumer.replyMessages, Consumer.needReply]
  | commandProcessor context =>
    cases h : isNullOrEmpty context.replyToEndPoint <;>
      simp [Consumer.replyMessages, Commands.replyMessages, Consumer.needReply, h]

/-- A call finishes the saga, clears its result or leaves it alone. -/
theorem isSome_sagaResult_exec (m : Messages C P R) (call : Call W C P R) :
    (m.exec consumer call).bus.sagaResult.isSome =
      (call.finishesSaga || (m.bus.sagaResult.isSome && !call.clears)) := by
  cases call with
  | handler call =>
    cases call <;>
      simp [Messages.exec, Messages.handle, Call.finishesSaga, Call.clears, EventBus.publishAnyway]
  | _ => simp [Messages.exec, Call.finishesSaga, Call.clears]

theorem isSome_sagaResult_execs (consumer : Consumer M) (m : Messages C P R)
    (calls : List (Call W C P R)) :
    (m.execs consumer calls).bus.sagaResult.isSome =
      sagaFinished m.bus.sagaResult.isSome calls := by
  induction calls generalizing m with
  | nil => rfl
  | cons call calls ih => rw [Messages.execs_cons, ih, isSome_sagaResult_exec, sagaFinished]

theorem sagaReplyMessage_eq_none_iff (bus : EventBus (Event P) (Obj P R)) :
    sagaReplyMessage consumer.sagaInfo bus = none ↔
      consumer.needSagaReply = false ∨ bus.sagaResult.isSome = false := by
  unfold sagaReplyMessage Consumer.needSagaReply EventBus.getSagaResult
  cases consumer.sagaInfo with
  | none => simp
  | some info =>
    cases bus.sagaResult with
    | none => simp
    | some sagaResult =>
      cases isNullOrWhiteSpace info.sagaId <;> cases isNullOrEmpty info.replyEndPoint <;> simp

/-- What is on the bus and in the lists before the calls is not handed over: the lists are empty,
and what is on the bus is cleared before it is collected. -/
@[mk_iff]
structure NothingLeft (m : Messages C P R) (calls : List (Call W C P R)) : Prop where
  eventMessageStates : m.eventMessageStates = []
  commandMessageStates : m.commandMessageStates = []
  events : m.bus.eventQueue = [] ∨ neverCollected Call.clears Call.collectsEvents calls = true
  anyway : m.bus.toPublishAnywayEventQueue = [] ∨
    neverCollected Call.clearsAnyway Call.collectsAnyway calls = true
  commands : m.commandQueue = [] ∨ neverCollected Call.clears Call.collectsCommands calls = true

/-- Nothing is left behind a call of the handler exactly when nothing was left before it and the
call is silent. -/
theorem nothingLeft_handle_iff (before : List (Call W C P R)) (call : HandlerCall W C P R) :
    NothingLeft (m.handle call) calls ↔
      NothingLeft m (.handler call :: calls) ∧ Silent consumer before calls (.handler call) := by
  cases call with
  | publish event =>
    constructor
    · intro h
      have hevents := h.events.resolve_left (List.append_ne_nil_of_right_ne_nil _ (by simp))
      exact ⟨⟨h.eventMessageStates, h.commandMessageStates, .inr hevents, h.anyway, h.commands⟩,
        hevents⟩
    · rintro ⟨h, hevents⟩
      exact ⟨h.eventMessageStates, h.commandMessageStates, .inr hevents, h.anyway, h.commands⟩
  | publishAnyway events =>
    constructor
    · intro h
      have hanyway := h.anyway.imp_left List.append_eq_nil_iff.1
      exact ⟨⟨h.eventMessageStates, h.commandMessageStates, h.events, hanyway.imp_left And.left,
        h.commands⟩, hanyway.imp_left And.right⟩
    · rintro ⟨h, hsilent⟩
      refine ⟨h.eventMessageStates, h.commandMessageStates, h.events, ?_, h.commands⟩
      rcases hsilent with hnil | hanyway
      · exact h.anyway.imp_left fun hqueue => List.append_eq_nil_iff.2 ⟨hqueue, hnil⟩
      · exact .inr hanyway
  | sendCommand command =>
    constructor
    · intro h
      have hcommands := h.commands.resolve_left (List.append_ne_nil_of_right_ne_nil _ (by simp))
      exact ⟨⟨h.eventMessageStates, h.commandMessageStates, h.events, h.anyway, .inr hcommands⟩,
        hcommands⟩
    · rintro ⟨h, hcommands⟩
      exact ⟨h.eventMessageStates, h.commandMessageStates, h.events, h.anyway, .inr hcommands⟩
  | clearMessages clearAnyway =>
    cases clearAnyway <;> simp [nothingLeft_iff, Messages.handle, Silent, EventBus.clearMessages]
  | finishSaga sagaResult => simp [nothingLeft_iff, Messages.handle, Silent, EventBus.finishSaga]
  | setReply reply => simp [nothingLeft_iff, Messages.handle, Silent]
  | add entity => simp [nothingLeft_iff, Messages.handle, Silent]
  | saveChanges => simp [nothingLeft_iff, Messages.handle, Silent]
  | rollback => simp [nothingLeft_iff, Messages.handle, Silent]

/-- Nothing is left behind a call exactly when nothing was left before it and the call is
silent. -/
theorem nothingLeft_exec_iff {before : List (Call W C P R)} {call : Call W C P R} :
    NothingLeft ((Messages.new.execs consumer before).exec consumer call) calls ↔
      NothingLeft (Messages.new.execs consumer before) (call :: calls) ∧
        Silent consumer before calls call := by
  have hsaga := isSome_sagaResult_execs consumer Messages.new before
  generalize (Messages.new : Messages C P R).execs consumer before = m at hsaga ⊢
  cases call with
  | handler call => exact nothingLeft_handle_iff before call
  | addReply =>
    constructor
    · intro h
      obtain ⟨hstates, hreply⟩ := List.append_eq_nil_iff.1 h.eventMessageStates
      exact ⟨⟨hstates, h.commandMessageStates, h.events, h.anyway, h.commands⟩,
        (replyMessages_eq_nil_iff m.reply).1 hreply⟩
    · rintro ⟨h, hreply⟩
      exact ⟨List.append_eq_nil_iff.2
          ⟨h.eventMessageStates, (replyMessages_eq_nil_iff m.reply).2 hreply⟩,
        h.commandMessageStates, h.events, h.anyway, h.commands⟩
  | addCommands =>
    -- what is collected is empty when the list is; the queue itself is kept
    constructor
    · intro h
      obtain ⟨hstates, hcommands⟩ := List.append_eq_nil_iff.1 h.commandMessageStates
      exact ⟨⟨h.eventMessageStates, hstates, h.events, h.anyway,
        .inl (List.map_eq_nil_iff.1 hcommands)⟩, trivial⟩
    · rintro ⟨h, -⟩
      have hcommands := h.commands.resolve_right Bool.false_ne_true
      exact ⟨h.eventMessageStates, List.append_eq_nil_iff.2
        ⟨h.commandMessageStates, List.map_eq_nil_iff.2 hcommands⟩, h.events, h.anyway,
        .inl hcommands⟩
  | addEvents =>
    constructor
    · intro h
      obtain ⟨hstates, hevents⟩ := List.append_eq_nil_iff.1 h.eventMessageStates
      exact ⟨⟨hstates, h.commandMessageStates, .inl (List.map_eq_nil_iff.1 hevents), h.anyway,
        h.commands⟩, trivial⟩
    · rintro ⟨h, -⟩
      have hevents := h.events.resolve_right Bool.false_ne_true
      exact ⟨List.append_eq_nil_iff.2 ⟨h.eventMessageStates, List.map_eq_nil_iff.2 hevents⟩,
        h.commandMessageStates, .inl hevents, h.anyway, h.commands⟩
  | addPublishAnywayEvents =>
    constructor
    · intro h
      obtain ⟨hstates, hanyway⟩ := List.append_eq_nil_iff.1 h.eventMessageStates
      exact ⟨⟨hstates, h.commandMessageStates, h.events, .inl (List.map_eq_nil_iff.1 hanyway),
        h.commands⟩, trivial⟩
    · rintro ⟨h, -⟩
      have hanyway := h.anyway.resolve_right Bool.false_ne_true
      exact ⟨List.append_eq_nil_iff.2 ⟨h.eventMessageStates, List.map_eq_nil_iff.2 hanyway⟩,
        h.commandMessageStates, h.events, .inl hanyway, h.commands⟩
  | addSagaReply =>
    have hreply : (sagaReplyMessage consumer.sagaInfo m.bus).toList = [] ↔
        Silent consumer before calls .addSagaReply := by
      rw [Option.toList_eq_nil_iff, sagaReplyMessage_eq_none_iff, hsaga]
      rfl
    constructor
    · intro h
      obtain ⟨hstates, hnone⟩ := List.append_eq_nil_iff.1 h.eventMessageStates
      exact ⟨⟨hstates, h.commandMessageStates, h.events, h.anyway, h.commands⟩, hreply.1 hnone⟩
    · rintro ⟨h, hsilent⟩
      exact ⟨List.append_eq_nil_iff.2 ⟨h.eventMessageStates, hreply.2 hsilent⟩,
        h.commandMessageStates, h.events, h.anyway, h.commands⟩
  | store => simp [nothingLeft_iff, Messages.exec, Silent]
  | saveStore => simp [nothingLeft_iff, Messages.exec, Silent]

/-- Nothing is left behind the failed attempts exactly when all their calls are silent. -/
theorem nothingLeft_execs_iff {failed after : List (Call W C P R)} :
    ∀ before : List (Call W C P R),
      NothingLeft ((Messages.new.execs consumer before).execs consumer failed) after ↔
        NothingLeft (Messages.new.execs consumer before) (failed ++ after) ∧
          AllSilent consumer before failed after := by
  induction failed with
  | nil => simp [AllSilent]
  | cons call failed ih =>
    intro before
    have hstep := ih (before ++ [call])
    simp only [Messages.execs_append, Messages.execs_cons, Messages.execs_nil] at hstep
    rw [Messages.execs_cons, hstep, nothingLeft_exec_iff, List.cons_append, AllSilent, and_assoc]

theorem nothingLeft_new : NothingLeft (Messages.new : Messages C P R) calls := by
  simp [nothingLeft_iff, Messages.new, EventBus.new]

/-! ## What the handler leaves -/

/-- The call sets the reply. -/
def Call.setsReply : Call W C P R → Bool
  | .handler (.setReply _) => true
  | _ => false

/-- The events that the call puts on the bus. -/
def Call.published : Call W C P R → List (Event P)
  | .handler (.publish event) => [event]
  | _ => []

/-- The publish-anyway events that the call puts on the bus. -/
def Call.publishedAnyway : Call W C P R → List (Event P)
  | .handler (.publishAnyway events) => events
  | _ => []

/-- The commands that the call puts on the bus. -/
def Call.commands : Call W C P R → List C
  | .handler (.sendCommand command) => [command]
  | _ => []

open Accumulate

theorem isQueue_eventQueue (consumer : Consumer M) :
    IsQueue (Messages.exec consumer) (fun m : Messages C P R => m.bus.eventQueue)
      (fun call : Call W C P R => call.clears) Call.published := by
  intro m call
  cases call with
  | handler call =>
    cases call <;>
      simp [Messages.exec, Messages.handle, Call.clears, Call.published, EventBus.publishAnyway]
  | _ => simp [Messages.exec, Call.clears, Call.published]

theorem isQueue_anyway (consumer : Consumer M) :
    IsQueue (Messages.exec consumer) (fun m : Messages C P R => m.bus.toPublishAnywayEventQueue)
      (fun call : Call W C P R => call.clearsAnyway) Call.publishedAnyway := by
  intro m call
  cases call with
  | handler call =>
    cases call with
    | clearMessages clearAnyway =>
      cases clearAnyway <;>
        simp [Messages.exec, Messages.handle, Call.clearsAnyway, Call.publishedAnyway,
          EventBus.clearMessages]
    | _ =>
      simp [Messages.exec, Messages.handle, Call.clearsAnyway, Call.publishedAnyway,
        EventBus.publish, EventBus.publishAnyway, EventBus.finishSaga]
  | _ => simp [Messages.exec, Call.clearsAnyway, Call.publishedAnyway]

theorem isQueue_commandQueue (consumer : Consumer M) :
    IsQueue (Messages.exec consumer) (fun m : Messages C P R => m.commandQueue)
      (fun call : Call W C P R => call.clears) Call.commands := by
  intro m call
  cases call with
  | handler call => cases call <;> simp [Messages.exec, Messages.handle, Call.clears, Call.commands]
  | _ => simp [Messages.exec, Call.clears, Call.commands]

/-- The saga result that a call leaves, if it sets or clears it. -/
def Call.sagaResult : Call W C P R → Option (Obj P R)
  | .handler (.finishSaga sagaResult) => some sagaResult
  | _ => none

/-- The reply that a call leaves, if it sets it. -/
def Call.reply : Call W C P R → Option (Obj P R)
  | .handler (.setReply reply) => reply
  | _ => none

theorem isRegister_sagaResult (consumer : Consumer M) :
    IsRegister (Messages.exec consumer) (fun m : Messages C P R => m.bus.sagaResult)
      (fun call : Call W C P R => call.finishesSaga || call.clears) Call.sagaResult := by
  intro m call
  cases call with
  | handler call =>
    cases call <;>
      simp [Messages.exec, Messages.handle, Call.finishesSaga, Call.clears, Call.sagaResult,
        EventBus.publishAnyway]
  | _ => simp [Messages.exec, Call.finishesSaga, Call.clears]

theorem isRegister_reply (consumer : Consumer M) :
    IsRegister (Messages.exec consumer) (fun m : Messages C P R => m.reply)
      (fun call : Call W C P R => call.setsReply) Call.reply := by
  intro m call
  cases call with
  | handler call => cases call <;> simp [Messages.exec, Messages.handle, Call.setsReply, Call.reply]
  | _ => simp [Messages.exec, Call.setsReply]

/-- What a list of calls makes of the events on the bus. -/
theorem eventQueue_execs (consumer : Consumer M) (m : Messages C P R)
    (calls : List (Call W C P R)) :
    (m.execs consumer calls).bus.eventQueue =
      (if calls.any Call.clears then [] else m.bus.eventQueue) ++
        (Messages.new.execs consumer calls).bus.eventQueue :=
  (isQueue_eventQueue consumer).foldl (show Messages.new.bus.eventQueue = [] from rfl) calls m

/-- What a list of calls makes of the publish-anyway events on the bus. -/
theorem anyway_execs (consumer : Consumer M) (m : Messages C P R) (calls : List (Call W C P R)) :
    (m.execs consumer calls).bus.toPublishAnywayEventQueue =
      (if calls.any Call.clearsAnyway then [] else m.bus.toPublishAnywayEventQueue) ++
        (Messages.new.execs consumer calls).bus.toPublishAnywayEventQueue :=
  (isQueue_anyway consumer).foldl
    (show Messages.new.bus.toPublishAnywayEventQueue = [] from rfl) calls m

/-- What a list of calls makes of the commands on the bus. -/
theorem commandQueue_execs (consumer : Consumer M) (m : Messages C P R)
    (calls : List (Call W C P R)) :
    (m.execs consumer calls).commandQueue =
      (if calls.any Call.clears then [] else m.commandQueue) ++
        (Messages.new.execs consumer calls).commandQueue :=
  (isQueue_commandQueue consumer).foldl (show Messages.new.commandQueue = [] from rfl) calls m

/-! ## One attempt -/

/-- The calls of the handler. -/
abbrev handlerCalls (handler : List (HandlerCall W C P R)) : List (Call W C P R) :=
  handler.map .handler

/-- What the delegate wraps when the handler has run. -/
def Consumer.collected (consumer : Consumer M) (m : Messages C P R) : List (Message P R) :=
  match consumer with
  | .commandProcessor context => Commands.handledMessages context m.reply m.bus
  | .eventSubscriber context _ => EventSubscribers.handledMessages context m.bus

/-- Of the bus and the reply, what is wrapped depends on the events, the saga reply and the
reply. -/
theorem Consumer.collected_congr (consumer : Consumer M) {m m' : Messages C P R}
    (hreply : m.reply = m'.reply) (hevents : m.bus.eventQueue = m'.bus.eventQueue)
    (hanyway : m.bus.toPublishAnywayEventQueue = m'.bus.toPublishAnywayEventQueue)
    (hsaga : sagaReplyMessage consumer.sagaInfo m.bus =
      sagaReplyMessage consumer.sagaInfo m'.bus) :
    consumer.collected m = consumer.collected m' := by
  cases consumer with
  | commandProcessor context =>
    have hsaga : sagaReplyMessage context.sagaInfo m.bus =
        sagaReplyMessage context.sagaInfo m'.bus := hsaga
    simp only [Consumer.collected, Commands.handledMessages, EventBus.getEvents,
      EventBus.getToPublishAnywayMessages, hreply, hevents, hanyway, hsaga]
  | eventSubscriber context subscriptionName =>
    have hsaga : sagaReplyMessage context.sagaInfo m.bus =
        sagaReplyMessage context.sagaInfo m'.bus := hsaga
    simp only [Consumer.collected, EventSubscribers.handledMessages, EventBus.getEvents,
      EventBus.getToPublishAnywayMessages, hevents, hanyway, hsaga]

theorem Consumer.length_collected (consumer : Consumer M) (m : Messages C P R) :
    (consumer.collected m).length = (consumer.replyMessages m.reply).length +
      m.bus.eventQueue.length + m.bus.toPublishAnywayEventQueue.length +
      (sagaReplyMessage consumer.sagaInfo m.bus).toList.length := by
  cases consumer with
  | commandProcessor context =>
    simp only [Consumer.collected, Commands.handledMessages, EventBus.getEvents,
      EventBus.getToPublishAnywayMessages, List.length_append, List.length_map]
    rfl
  | eventSubscriber context subscriptionName =>
    simp only [Consumer.collected, EventSubscribers.handledMessages, EventBus.getEvents,
      EventBus.getToPublishAnywayMessages, List.length_append, List.length_map,
      Consumer.replyMessages, List.length_nil, Nat.zero_add]
    rfl

/-- The commands that the delegate wraps when the handler has run. -/
def Consumer.collectedCommands (consumer : Consumer M) (m : Messages C P R) :
    List (CommandMessage C) :=
  match consumer with
  | .commandProcessor _ => []
  | .eventSubscriber _ _ => m.commandQueue.map fun c => ⟨c, consumer.sagaInfo⟩

theorem execs_handlerCalls (consumer : Consumer M) (m : Messages C P R)
    (handler : List (HandlerCall W C P R)) :
    (m.execs consumer (handlerCalls handler)).eventMessageStates = m.eventMessageStates ∧
      (m.execs consumer (handlerCalls handler)).commandMessageStates =
        m.commandMessageStates := by
  induction handler generalizing m with
  | nil => exact ⟨rfl, rfl⟩
  | cons call handler ih =>
    have hcall := ih (m.handle call)
    cases call <;> exact hcall

theorem execs_delegate (consumer : Consumer M) (m : Messages C P R)
    (handler : List (HandlerCall W C P R)) :
    (m.execs consumer (consumer.delegate handler)).eventMessageStates =
      m.eventMessageStates ++ consumer.collected (m.execs consumer (handlerCalls handler)) ∧
    (m.execs consumer (consumer.delegate handler)).commandMessageStates =
      m.commandMessageStates ++
        consumer.collectedCommands (m.execs consumer (handlerCalls handler)) := by
  obtain ⟨hevents, hcommands⟩ := execs_handlerCalls consumer m handler
  rw [← hevents, ← hcommands]
  cases consumer with
  | commandProcessor context =>
    simp [Consumer.delegate, Consumer.collected, Consumer.collectedCommands, Messages.exec,
      Consumer.replyMessages, Commands.handledMessages, Consumer.messageId, Consumer.sagaInfo]
  | eventSubscriber context subscriptionName =>
    simp [Consumer.delegate, Consumer.collected, Consumer.collectedCommands, Messages.exec,
      EventSubscribers.handledMessages, Consumer.messageId, Consumer.sagaInfo]

/-- A handler collects nothing: what is on the bus before it is cleared by it, or is what is on the
bus behind it. -/
theorem neverCollected_handlerCalls {clears collects : Call W C P R → Bool}
    (hcollects : ∀ call, collects (.handler call) = false)
    (handler : List (HandlerCall W C P R)) (rest : List (Call W C P R)) :
    neverCollected clears collects (handlerCalls handler ++ rest) =
      ((handlerCalls handler).any clears || neverCollected clears collects rest) := by
  induction handler with
  | nil => simp
  | cons call handler ih =>
    simp only [List.map_cons, List.cons_append, neverCollected, hcollects, ih, List.any_cons,
      Bool.not_false, Bool.true_and, Bool.or_assoc]

theorem neverCollected_delegate_events (handler : List (HandlerCall W C P R)) :
    neverCollected Call.clears Call.collectsEvents (consumer.delegate handler) =
      (handlerCalls handler).any Call.clears := by
  unfold Consumer.delegate
  rw [neverCollected_handlerCalls fun _ => rfl]
  cases consumer <;> exact Bool.or_false _

theorem neverCollected_delegate_anyway (handler : List (HandlerCall W C P R)) :
    neverCollected Call.clearsAnyway Call.collectsAnyway (consumer.delegate handler) =
      (handlerCalls handler).any Call.clearsAnyway := by
  unfold Consumer.delegate
  rw [neverCollected_handlerCalls fun _ => rfl]
  cases consumer <;> exact Bool.or_false _

/-- What failed attempts leave of the saga result and the reply: nothing, if the handler sets
none. -/
structure Resettable (m : Messages C P R) (handler : List (HandlerCall W C P R)) : Prop where
  sagaResult : (handlerCalls handler).any (fun call => call.finishesSaga || call.clears) = false →
    m.bus.sagaResult = none
  reply : (handlerCalls handler).any Call.setsReply = false → m.reply = none

namespace Resettable

variable {handler : List (HandlerCall W C P R)}

theorem sagaReplyMessage_eq (h : Resettable m handler) :
    sagaReplyMessage consumer.sagaInfo (m.execs consumer (handlerCalls handler)).bus =
      sagaReplyMessage consumer.sagaInfo
        (Messages.new.execs consumer (handlerCalls handler)).bus := by
  have hsaga : (m.execs consumer (handlerCalls handler)).bus.sagaResult =
      (Messages.new.execs consumer (handlerCalls handler)).bus.sagaResult := by
    have hm := (isRegister_sagaResult consumer).foldl (handlerCalls handler) m Messages.new
    have hnew := (isRegister_sagaResult consumer).foldl (handlerCalls handler) Messages.new m
    cases hany : (handlerCalls handler).any fun call => call.finishesSaga || call.clears with
    | true =>
      rw [hany] at hm
      exact hm
    | false =>
      rw [hany] at hm hnew
      exact (hm.trans (h.sagaResult hany)).trans hnew.symm
  simp only [sagaReplyMessage, EventBus.getSagaResult, hsaga]

theorem reply_eq (h : Resettable m handler) :
    (m.execs consumer (handlerCalls handler)).reply =
      (Messages.new.execs consumer (handlerCalls handler)).reply := by
  have hm := (isRegister_reply consumer).foldl (handlerCalls handler) m Messages.new
  have hnew := (isRegister_reply consumer).foldl (handlerCalls handler) Messages.new m
  cases hany : (handlerCalls handler).any Call.setsReply with
  | true =>
    rw [hany] at hm
    exact hm
  | false =>
    rw [hany] at hm hnew
    exact (hm.trans (h.reply hany)).trans hnew.symm

/-- What is wrapped after a handler that found messages on the bus: these are wrapped too, unless
the handler clears them. -/
theorem length_collected (consumer : Consumer M) (h : Resettable m handler) :
    (consumer.collected (m.execs consumer (handlerCalls handler))).length =
      (consumer.collected (Messages.new.execs consumer (handlerCalls handler))).length +
        (if (handlerCalls handler).any Call.clears then [] else m.bus.eventQueue).length +
        (if (handlerCalls handler).any Call.clearsAnyway then []
          else m.bus.toPublishAnywayEventQueue).length := by
  have hevents := eventQueue_execs consumer m (handlerCalls handler)
  have hanyway := anyway_execs consumer m (handlerCalls handler)
  rw [consumer.length_collected, consumer.length_collected, h.sagaReplyMessage_eq, h.reply_eq,
    hevents, hanyway, List.length_append, List.length_append]
  omega

/-- When the bus was empty or is cleared, the same is wrapped as in a new scope. -/
theorem collected_eq (consumer : Consumer M) (h : Resettable m handler)
    (hevents : (if (handlerCalls handler).any Call.clears then [] else m.bus.eventQueue) = [])
    (hanyway : (if (handlerCalls handler).any Call.clearsAnyway then []
      else m.bus.toPublishAnywayEventQueue) = []) :
    consumer.collected (m.execs consumer (handlerCalls handler)) =
      consumer.collected (Messages.new.execs consumer (handlerCalls handler)) := by
  refine consumer.collected_congr h.reply_eq ?_ ?_ h.sagaReplyMessage_eq
  · rw [eventQueue_execs consumer m, hevents, List.nil_append]
  · rw [anyway_execs consumer m, hanyway, List.nil_append]

end Resettable

/-- Nothing is cleared or collected exactly when the list is empty or the calls clear it. -/
theorem ite_eq_nil_iff {α : Type} {b : Bool} {l : List α} :
    (if b then [] else l) = [] ↔ l = [] ∨ b = true := by
  cases b <;> simp

/-- The messages that are handed over after the last attempt are those of a new scope exactly when
the failed attempts have left nothing. -/
theorem eventMessageStates_perm_iff {handler : List (HandlerCall W C P R)}
    (h : Resettable m handler) :
    (m.execs consumer (consumer.delegate handler)).eventMessageStates.Perm
        (Messages.new.execs consumer (consumer.delegate handler)).eventMessageStates ↔
      m.eventMessageStates = [] ∧
      (m.bus.eventQueue = [] ∨
        neverCollected Call.clears Call.collectsEvents (consumer.delegate handler) = true) ∧
      (m.bus.toPublishAnywayEventQueue = [] ∨
        neverCollected Call.clearsAnyway Call.collectsAnyway (consumer.delegate handler) =
          true) := by
  rw [(execs_delegate consumer m handler).1, (execs_delegate consumer .new handler).1,
    neverCollected_delegate_events, neverCollected_delegate_anyway, ← ite_eq_nil_iff,
    ← ite_eq_nil_iff]
  constructor
  · intro hperm
    have hlength := hperm.length_eq
    rw [List.length_append, List.length_append, h.length_collected consumer] at hlength
    simp only [Messages.new, List.length_nil] at hlength
    refine ⟨List.length_eq_zero_iff.1 ?_, List.length_eq_zero_iff.1 ?_,
      List.length_eq_zero_iff.1 ?_⟩ <;> omega
  · rintro ⟨hstates, hevents, hanyway⟩
    rw [hstates, h.collected_eq consumer hevents hanyway]
    rfl

/-- The commands that are handed over after the last attempt are those of a new scope exactly when
the failed attempts have left none; the command processor hands none over. -/
theorem commandMessageStates_perm_iff (handler : List (HandlerCall W C P R)) :
    (m.execs consumer (consumer.delegate handler)).commandMessageStates.Perm
        (Messages.new.execs consumer (consumer.delegate handler)).commandMessageStates ↔
      m.commandMessageStates = [] ∧
      (m.commandQueue = [] ∨
        neverCollected Call.clears Call.collectsCommands (consumer.delegate handler) = true) := by
  rw [(execs_delegate consumer m handler).2, (execs_delegate consumer .new handler).2]
  unfold Consumer.delegate
  rw [neverCollected_handlerCalls fun _ => rfl]
  cases consumer with
  | commandProcessor context =>
    simp [Consumer.collectedCommands, Messages.new, Call.collectsCommands]
  | eventSubscriber context subscriptionName =>
    have hqueue := commandQueue_execs (.eventSubscriber context subscriptionName) m
      (handlerCalls handler)
    have htail : neverCollected Call.clears Call.collectsCommands
        ([.addCommands, .addEvents, .addPublishAnywayEvents, .addSagaReply, .store, .saveStore] :
          List (Call W C P R)) = false := rfl
    rw [htail, Bool.or_false, ← ite_eq_nil_iff]
    simp only [Consumer.collectedCommands, hqueue]
    constructor
    · intro hperm
      have hlength := hperm.length_eq
      simp only [Messages.new, List.length_append, List.length_map, List.length_nil] at hlength
      exact ⟨List.length_eq_zero_iff.1 (by omega), List.length_eq_zero_iff.1 (by omega)⟩
    · rintro ⟨hstates, hcommands⟩
      rw [hstates, hcommands]
      rfl

end Messages

/-! ## The failed attempts -/

section Failed

variable {consumer : Consumer M} {handler : List (HandlerCall W C P R)}
  {failures : List FailedAttempt}

/-- A failed attempt makes calls of the delegate and calls that clean up. -/
theorem mem_failedCalls {call : Call W C P R} (h : call ∈ failedCalls consumer handler failures) :
    call ∈ consumer.delegate handler ∨ ∃ cleanup : Cleanup, call = cleanup.call := by
  obtain ⟨failure, _, hcall⟩ := List.mem_flatMap.1 h
  rcases List.mem_append.1 hcall with htake | hcleanup
  · exact .inl (List.mem_of_mem_take htake)
  · split at hcleanup
    · obtain ⟨cleanup, _, rfl⟩ := List.mem_map.1 hcleanup
      exact .inr ⟨cleanup, rfl⟩
    · cases hcleanup

/-- What only the handler does, no failed attempt does, if the handler does not. -/
theorem failedCalls_any_eq_false {p : Call W C P R → Bool}
    (hp : ∀ call, p call = true → ∃ c, call = .handler c)
    (hcleanup : ∀ cleanup : Cleanup, p cleanup.call = false)
    (h : (handlerCalls handler).any p = false) :
    (failedCalls consumer handler failures).any p = false := by
  rw [List.any_eq_false] at h ⊢
  intro call hcall hpcall
  obtain hdelegate | ⟨cleanup, rfl⟩ := mem_failedCalls hcall
  · obtain ⟨c, rfl⟩ := hp call hpcall
    rcases List.mem_append.1 hdelegate with hhandler | htail
    · exact h _ hhandler hpcall
    · cases consumer <;> simp at htail
  · simp [hcleanup] at hpcall

/-- Calls that do not finish the saga leave it unfinished. -/
theorem sagaResult_execs_eq_none {calls : List (Call W C P R)}
    (hcalls : calls.any Call.finishesSaga = false) {m : Messages C P R}
    (hm : m.bus.sagaResult = none) : (m.execs consumer calls).bus.sagaResult = none := by
  induction calls generalizing m with
  | nil => exact hm
  | cons call calls ih =>
    rw [List.any_cons, Bool.or_eq_false_iff] at hcalls
    have hvalue : call.sagaResult = none := by
      unfold Call.sagaResult
      split
      · simp [Call.finishesSaga] at hcalls
      · rfl
    refine ih hcalls.2 ?_
    have hexec := isRegister_sagaResult consumer m call
    simp only [hvalue, hm, ite_self] at hexec
    exact hexec

theorem exists_handler_of_finishesSaga {call : Call W C P R} (h : call.finishesSaga = true) :
    ∃ c, call = .handler c := by
  cases call with
  | handler c => exact ⟨c, rfl⟩
  | _ => cases h

theorem exists_handler_of_setsReply {call : Call W C P R} (h : call.setsReply = true) :
    ∃ c, call = .handler c := by
  cases call with
  | handler c => exact ⟨c, rfl⟩
  | _ => cases h

theorem finishesSaga_cleanup (cleanup : Cleanup) :
    (cleanup.call : Call W C P R).finishesSaga = false := by
  cases cleanup <;> rfl

theorem setsReply_cleanup (cleanup : Cleanup) :
    (cleanup.call : Call W C P R).setsReply = false := by
  cases cleanup <;> rfl

/-- Failed attempts leave no saga result and no reply that the handler does not set itself. -/
theorem resettable_failedCalls :
    Resettable (Messages.new.execs consumer (failedCalls consumer handler failures)) handler where
  sagaResult hany := by
    have hhandler : (handlerCalls handler).any Call.finishesSaga = false := by
      rw [List.any_eq_false] at hany ⊢
      intro call hcall hfinishes
      exact hany call hcall (by rw [hfinishes, Bool.true_or])
    have hfailed : (failedCalls consumer handler failures).any Call.finishesSaga = false :=
      failedCalls_any_eq_false (fun _ => exists_handler_of_finishesSaga)
        finishesSaga_cleanup hhandler
    exact sagaResult_execs_eq_none hfailed rfl
  reply hany := by
    have hfailed : (failedCalls consumer handler failures).any Call.setsReply = false :=
      failedCalls_any_eq_false (fun _ => exists_handler_of_setsReply)
        setsReply_cleanup hany
    have hreply := (isRegister_reply consumer).foldl (failedCalls consumer handler failures)
      Messages.new Messages.new
    rw [hfailed] at hreply
    exact hreply

end Failed

/-! ## The rows -/

section Rows

variable {sameKey : Entity W C P R → Entity W C P R → Bool} {options : MessageQueueOptions}
  {consumer : Consumer M} {handler : List (HandlerCall W C P R)} {s s' : Scope W C P R}

/-- The rows of `UnPublishedEvents`. -/
def unPublishedEvents (entities : List (Entity W C P R)) : List (Message P R) :=
  entities.filterMap fun
    | .unPublishedEvent message => some message
    | _ => none

/-- The rows of `UnSentCommands`. -/
def unSentCommands (entities : List (Entity W C P R)) : List (CommandMessage C) :=
  entities.filterMap fun
    | .unSentCommand command => some command
    | _ => none

theorem unPublishedEvents_append (es es' : List (Entity W C P R)) :
    unPublishedEvents (es ++ es') = unPublishedEvents es ++ unPublishedEvents es' :=
  List.filterMap_append

theorem unSentCommands_append (es es' : List (Entity W C P R)) :
    unSentCommands (es ++ es') = unSentCommands es ++ unSentCommands es' :=
  List.filterMap_append

/-- When no key is tracked already, all entities are added. -/
theorem foldlM_add_eq {es : List (Entity W C P R)} {db db' : DbContext W C P R}
    (h : es.foldlM (DbContext.add sameKey) db = some db') :
    db' = { db with added := db.added ++ es } := by
  induction es generalizing db with
  | nil =>
    cases h
    simp
  | cons e es ih =>
    obtain ⟨db₁, hadd, hrest⟩ := Option.bind_eq_some_iff.1 (by simpa [List.foldlM_cons] using h)
    unfold DbContext.add at hadd
    split at hadd
    · cases hadd
    · cases hadd
      rw [ih hrest]
      simp

theorem unPublishedEvents_messageRows (ms : List (Message P R)) :
    unPublishedEvents (ms.flatMap (messageRows options) : List (Entity W C P R)) =
      if options.ensureArrival then ms else [] := by
  induction ms with
  | nil => simp [unPublishedEvents]
  | cons message ms ih =>
    rw [List.flatMap_cons, unPublishedEvents_append, ih]
    rcases options with ⟨_, persistEvent, ensureArrival⟩
    cases persistEvent <;> cases ensureArrival <;> simp [messageRows, unPublishedEvents]

theorem unSentCommands_map (commands : List (CommandMessage C)) :
    unSentCommands (commands.map .unSentCommand : List (Entity W C P R)) = commands := by
  induction commands with
  | nil => rfl
  | cons command commands ih => exact congrArg (command :: ·) ih

theorem unSentCommands_messageRows (ms : List (Message P R)) :
    unSentCommands (ms.flatMap (messageRows options) : List (Entity W C P R)) = [] := by
  induction ms with
  | nil => simp [unSentCommands]
  | cons message ms ih =>
    rw [List.flatMap_cons, unSentCommands_append, ih]
    rcases options with ⟨_, persistEvent, ensureArrival⟩
    cases persistEvent <;> cases ensureArrival <;> simp [messageRows, unSentCommands]

/-- The store adds a row for each message of the list. -/
theorem unPublishedEvents_rows (m : Messages C P R) :
    unPublishedEvents (consumer.rows options m : List (Entity W C P R)) =
      if options.ensureArrival then m.eventMessageStates else [] := by
  cases consumer with
  | commandProcessor context =>
    rw [Consumer.rows, unPublishedEvents_append, unPublishedEvents_messageRows]
    cases options.ensureIdempotent <;> simp [unPublishedEvents]
  | eventSubscriber context subscriptionName =>
    rw [Consumer.rows, unPublishedEvents_append, unPublishedEvents_messageRows]
    cases options.ensureIdempotent <;> cases options.ensureArrival <;>
      simp [unPublishedEvents]

/-- The event subscriber sends commands. -/
def Consumer.sendsCommands : Consumer M → Bool
  | .commandProcessor _ => false
  | .eventSubscriber _ _ => true

theorem unSentCommands_rows (m : Messages C P R) :
    unSentCommands (consumer.rows options m : List (Entity W C P R)) =
      if options.ensureArrival && consumer.sendsCommands then m.commandMessageStates else [] := by
  cases consumer with
  | commandProcessor context =>
    rw [Consumer.rows, unSentCommands_append, unSentCommands_messageRows]
    cases options.ensureIdempotent <;> simp [unSentCommands, Consumer.sendsCommands]
  | eventSubscriber context subscriptionName =>
    rw [Consumer.rows, unSentCommands_append, unSentCommands_messageRows, List.append_nil,
      unSentCommands_append]
    have hhandled : unSentCommands (if options.ensureIdempotent then
        [.handledEvent context.messageId subscriptionName] else [] : List (Entity W C P R)) =
          [] := by
      cases options.ensureIdempotent <;> rfl
    rw [hhandled, List.nil_append, Consumer.sendsCommands, Bool.and_true]
    split
    · exact unSentCommands_map _
    · rfl

/-- The rows that are tracked as added are about messages of the lists. -/
structure Tracked (s : Scope W C P R) : Prop where
  unPublishedEvents : unPublishedEvents s.db.added ⊆ s.messages.eventMessageStates
  unSentCommands : unSentCommands s.db.added ⊆ s.messages.commandMessageStates

theorem exec_subset (consumer : Consumer M) (m : Messages C P R) (call : Call W C P R) :
    m.eventMessageStates ⊆ (m.exec consumer call).eventMessageStates ∧
      m.commandMessageStates ⊆ (m.exec consumer call).commandMessageStates := by
  cases call with
  | handler call =>
    cases call <;> exact ⟨List.Subset.refl _, List.Subset.refl _⟩
  | _ => simp [Messages.exec]

/-- What a call does to the tracker: it adds an entity of the handler or the rows of the store,
forgets what was added, or saves it. -/
inductive DbStep (options : MessageQueueOptions) (consumer : Consumer M) (m : Messages C P R)
    (db : DbContext W C P R) : Call W C P R → DbContext W C P R → Prop
  | same {call : Call W C P R} : DbStep options consumer m db call db
  | write {call : Call W C P R} (w : W) :
      DbStep options consumer m db call { db with added := db.added ++ [.write w] }
  | saveChanges {call : Call W C P R} : DbStep options consumer m db call db.saveChanges
  | rollback {call : Call W C P R} : DbStep options consumer m db call db.rollback
  | store : DbStep options consumer m db .store
      { db with added := db.added ++ consumer.rows options m }

theorem DbStep.of_exec {m : Messages C P R} {db db' : DbContext W C P R} {call : Call W C P R}
    (h : db.exec sameKey options consumer m call = some db') :
    DbStep options consumer m db call db' := by
  cases call with
  | handler call =>
    cases call with
    | add w =>
      simp only [DbContext.exec, DbContext.add] at h
      split at h
      · cases h
      · cases h
        exact .write w
    | saveChanges =>
      cases h
      exact .saveChanges
    | rollback =>
      cases h
      exact .rollback
    | _ =>
      cases h
      exact .same
  | store =>
    rw [foldlM_add_eq h]
    exact .store
  | saveStore =>
    simp only [DbContext.exec] at h
    split at h
    · cases h
      exact .same
    · cases h
      exact .saveChanges
  | _ =>
    cases h
    exact .same

theorem Tracked.exec {call : Call W C P R} (h : Tracked s)
    (hexec : s.exec sameKey options consumer call = some s') : Tracked s' := by
  obtain ⟨db, hdb, rfl⟩ := Option.map_eq_some_iff.1 hexec
  obtain ⟨hevents, hcommands⟩ := exec_subset consumer s.messages call
  cases DbStep.of_exec hdb with
  | same =>
    exact ⟨List.Subset.trans h.unPublishedEvents hevents,
      List.Subset.trans h.unSentCommands hcommands⟩
  | write w =>
    refine ⟨?_, ?_⟩
    · rw [unPublishedEvents_append]
      simpa [TransientFaults.unPublishedEvents] using
        List.Subset.trans h.unPublishedEvents hevents
    · rw [unSentCommands_append]
      simpa [TransientFaults.unSentCommands] using
        List.Subset.trans h.unSentCommands hcommands
  | saveChanges => exact ⟨List.nil_subset _, List.nil_subset _⟩
  | rollback => exact ⟨List.nil_subset _, List.nil_subset _⟩
  | store =>
    refine ⟨?_, ?_⟩
    · rw [unPublishedEvents_append, unPublishedEvents_rows]
      refine List.append_subset.2 ⟨h.unPublishedEvents, ?_⟩
      split
      · exact List.Subset.refl _
      · exact List.nil_subset _
    · rw [unSentCommands_append, unSentCommands_rows]
      refine List.append_subset.2 ⟨h.unSentCommands, ?_⟩
      split
      · exact List.Subset.refl _
      · exact List.nil_subset _

end Rows

/-! ## Attempts -/

section Attempts

variable {sameKey : Entity W C P R → Entity W C P R → Bool} {options : MessageQueueOptions}
  {consumer : Consumer M} {handler : List (HandlerCall W C P R)} {s s' : Scope W C P R}
  {calls : List (Call W C P R)}

theorem foldlM_exec_messages (h : calls.foldlM (Scope.exec sameKey options consumer) s = some s') :
    s'.messages = s.messages.execs consumer calls := by
  induction calls generalizing s with
  | nil =>
    cases h
    rfl
  | cons call calls ih =>
    obtain ⟨t, ht, hrest⟩ := Option.bind_eq_some_iff.1 (by simpa [List.foldlM_cons] using h)
    obtain ⟨db, _, rfl⟩ := Option.map_eq_some_iff.1 ht
    exact ih hrest

theorem attempt_messages (h : s.attempt sameKey options consumer calls = some s') :
    s'.messages = s.messages.execs consumer calls := by
  have hexec : s'.messages =
      ({ s with db := s.db.beginTransaction } : Scope W C P R).messages.execs consumer calls :=
    foldlM_exec_messages h
  exact hexec

theorem Tracked.foldlM (hs : Tracked s)
    (h : calls.foldlM (Scope.exec sameKey options consumer) s = some s') : Tracked s' := by
  induction calls generalizing s with
  | nil =>
    cases h
    exact hs
  | cons call calls ih =>
    obtain ⟨t, ht, hrest⟩ := Option.bind_eq_some_iff.1 (by simpa [List.foldlM_cons] using h)
    exact ih (hs.exec ht) hrest

theorem foldlM_attempt_spec {failures : List FailedAttempt} (hs : Tracked s)
    (h : failures.foldlM (fun (s : Scope W C P R) failure =>
      s.attempt sameKey options consumer (failure.calls consumer handler)) s = some s') :
    s'.messages = s.messages.execs consumer (failedCalls consumer handler failures) ∧
      Tracked s' := by
  induction failures generalizing s with
  | nil =>
    cases h
    exact ⟨rfl, hs⟩
  | cons failure failures ih =>
    obtain ⟨t, ht, hrest⟩ := Option.bind_eq_some_iff.1 (by simpa [List.foldlM_cons] using h)
    have hbegin : Tracked { s with db := s.db.beginTransaction } :=
      ⟨hs.unPublishedEvents, hs.unSentCommands⟩
    obtain ⟨hmessages, hs'⟩ := ih (hbegin.foldlM ht) hrest
    refine ⟨?_, hs'⟩
    simp only [hmessages, attempt_messages ht, failedCalls, List.flatMap_cons,
      Messages.execs_append]

/-- There is no row of the outbox among the entities. -/
def NoRows (entities : List (Entity W C P R)) : Prop :=
  unPublishedEvents entities = [] ∧ unSentCommands entities = []

theorem NoRows.append {es es' : List (Entity W C P R)} (h : NoRows es) (h' : NoRows es') :
    NoRows (es ++ es') := by
  simp [NoRows, unPublishedEvents_append, unSentCommands_append, h.1, h.2, h'.1, h'.2]

/-- Before the store is called, no row is added or inserted. -/
theorem noRows_foldlM (hcalls : .store ∉ calls)
    (h : calls.foldlM (Scope.exec sameKey options consumer) s = some s')
    (hadded : NoRows s.db.added) (hinserted : NoRows s.db.inserted) :
    NoRows s'.db.added ∧ NoRows s'.db.inserted := by
  induction calls generalizing s with
  | nil =>
    cases h
    exact ⟨hadded, hinserted⟩
  | cons call calls ih =>
    rw [List.mem_cons, not_or] at hcalls
    obtain ⟨t, ht, hrest⟩ := Option.bind_eq_some_iff.1 (by simpa [List.foldlM_cons] using h)
    obtain ⟨db, hdb, rfl⟩ := Option.map_eq_some_iff.1 ht
    cases DbStep.of_exec hdb with
    | same => exact ih hcalls.2 hrest hadded hinserted
    | write w => exact ih hcalls.2 hrest (hadded.append ⟨rfl, rfl⟩) hinserted
    | saveChanges => exact ih hcalls.2 hrest ⟨rfl, rfl⟩ (hinserted.append hadded)
    | rollback => exact ih hcalls.2 hrest ⟨rfl, rfl⟩ hinserted
    | store => exact absurd rfl hcalls.1

theorem store_rows
    (h : [Call.store, .saveStore].foldlM (Scope.exec sameKey options consumer) s = some s')
    (hadded : NoRows s.db.added) (hinserted : NoRows s.db.inserted) :
    unPublishedEvents s'.db.inserted =
        unPublishedEvents (consumer.rows options s'.messages : List (Entity W C P R)) ∧
      unSentCommands s'.db.inserted =
        unSentCommands (consumer.rows options s'.messages : List (Entity W C P R)) := by
  obtain ⟨t, ht, hrest⟩ := Option.bind_eq_some_iff.1 (by simpa [List.foldlM_cons] using h)
  obtain ⟨db, hdb, rfl⟩ := Option.map_eq_some_iff.1 ht
  obtain ⟨db', hdb', rfl⟩ := Option.map_eq_some_iff.1 hrest
  rw [foldlM_add_eq hdb] at hdb'
  simp only [DbContext.exec] at hdb'
  split at hdb'
  · rename_i hrows
    cases hdb'
    simp only [Messages.exec] at hrows ⊢
    rw [hrows]
    exact hinserted
  · cases hdb'
    simp [DbContext.saveChanges, Messages.exec, unPublishedEvents_append, unSentCommands_append,
      hadded.1, hadded.2, hinserted.1, hinserted.2]

theorem exists_delegate_eq (consumer : Consumer M) (handler : List (HandlerCall W C P R)) :
    ∃ calls : List (Call W C P R), Call.store ∉ calls ∧
      consumer.delegate handler = calls ++ [Call.store, Call.saveStore] := by
  have hhandler : (.store : Call W C P R) ∉ handlerCalls handler := by simp
  cases consumer with
  | commandProcessor context =>
    let collect : List (Call W C P R) :=
      [.addReply, .addEvents, .addPublishAnywayEvents, .addSagaReply]
    refine ⟨handlerCalls handler ++ collect, ?_, (List.append_assoc _ collect _).symm⟩
    rw [List.mem_append, not_or]
    exact ⟨hhandler, by simp [collect]⟩
  | eventSubscriber context subscriptionName =>
    let collect : List (Call W C P R) :=
      [.addCommands, .addEvents, .addPublishAnywayEvents, .addSagaReply]
    refine ⟨handlerCalls handler ++ collect, ?_, (List.append_assoc _ collect _).symm⟩
    rw [List.mem_append, not_or]
    exact ⟨hhandler, by simp [collect]⟩

/-- What the last attempt inserts, when no row is left in the tracker. -/
theorem attempt_rows (h : s.attempt sameKey options consumer (consumer.delegate handler) = some s')
    (hadded : NoRows s.db.added) :
    unPublishedEvents s'.db.inserted =
        unPublishedEvents (consumer.rows options s'.messages : List (Entity W C P R)) ∧
      unSentCommands s'.db.inserted =
        unSentCommands (consumer.rows options s'.messages : List (Entity W C P R)) := by
  obtain ⟨calls, hcalls, hdelegate⟩ := exists_delegate_eq consumer handler
  unfold Scope.attempt at h
  rw [hdelegate, List.foldlM_append] at h
  obtain ⟨t, ht, hstore⟩ := Option.bind_eq_some_iff.1 h
  obtain ⟨htadded, htinserted⟩ := noRows_foldlM hcalls ht hadded ⟨rfl, rfl⟩
  exact store_rows hstore htadded htinserted

end Attempts

/-! ## Transparency -/

section Transparency

variable {sameKey : Entity W C P R → Entity W C P R → Bool} {options : MessageQueueOptions}
  {consumer : Consumer M} {handler : List (HandlerCall W C P R)} {s once : Scope W C P R}
  {failures : List FailedAttempt}

/-- The same messages and commands are handed to `MessagePublisher` and `CommandBus`, and the same
rows are added to `UnPublishedEvents` and `UnSentCommands`, in any order. -/
structure SameOutcome (s s' : Scope W C P R) : Prop where
  messages : s.messages.eventMessageStates.Perm s'.messages.eventMessageStates
  commands : s.messages.commandMessageStates.Perm s'.messages.commandMessageStates
  unPublishedEvents : (unPublishedEvents s.db.inserted).Perm (unPublishedEvents s'.db.inserted)
  unSentCommands : (unSentCommands s.db.inserted).Perm (unSentCommands s'.db.inserted)

theorem once_messages
    (honce : executeInTransactionAsync sameKey options consumer handler [] = some once) :
    once.messages = Messages.new.execs consumer (consumer.delegate handler) :=
  attempt_messages honce

/-- A single invocation hands over what `CommandProcessor` hands over for a handled command. -/
theorem once_eq_handledMessages_command {context : CommandContext}
    (honce : executeInTransactionAsync sameKey options (.commandProcessor context : Consumer M)
      handler [] = some once) :
    ∃ m : Messages C P R,
      m = Messages.new.execs (.commandProcessor context : Consumer M) (handlerCalls handler) ∧
      once.messages.eventMessageStates = Commands.handledMessages context m.reply m.bus ∧
      once.messages.commandMessageStates = [] := by
  obtain ⟨hevents, hcommands⟩ :=
    execs_delegate (.commandProcessor context : Consumer M) (.new : Messages C P R) handler
  rw [← once_messages honce] at hevents hcommands
  exact ⟨_, rfl, hevents, hcommands⟩

/-- A single invocation hands over what `EventSubscriber` hands over for a handled event. -/
theorem once_eq_handledMessages_event {context : EventContext M} {subscriptionName : String}
    (honce : executeInTransactionAsync sameKey options (.eventSubscriber context subscriptionName)
      handler [] = some once) :
    ∃ m : Messages C P R,
      m = Messages.new.execs (.eventSubscriber context subscriptionName) (handlerCalls handler) ∧
      once.messages.eventMessageStates = EventSubscribers.handledMessages context m.bus ∧
      once.messages.commandMessageStates = m.commandQueue.map fun c => ⟨c, context.sagaInfo⟩ := by
  obtain ⟨hevents, hcommands⟩ :=
    execs_delegate (.eventSubscriber context subscriptionName) (.new : Messages C P R) handler
  rw [← once_messages honce] at hevents hcommands
  exact ⟨_, rfl, hevents, hcommands⟩

/-- However often the delegate is invoked, and wherever the failed attempts are cut: the outcome is
that of a single invocation exactly when all calls of the failed attempts are silent. -/
theorem sameOutcome_iff_allSilent
    (hrun : executeInTransactionAsync sameKey options consumer handler failures = some s)
    (honce : executeInTransactionAsync sameKey options consumer handler [] = some once) :
    SameOutcome s once ↔
      AllSilent consumer [] (failedCalls consumer handler failures)
        (consumer.delegate handler) := by
  obtain ⟨t, hfailed, hlast⟩ := Option.bind_eq_some_iff.1 hrun
  have hfirst : Scope.new.attempt sameKey options consumer (consumer.delegate handler) =
      some once := honce
  have hnew : Tracked (Scope.new : Scope W C P R) := ⟨List.nil_subset _, List.nil_subset _⟩
  obtain ⟨hmessages, htracked⟩ := foldlM_attempt_spec hnew hfailed
  have hreset : Resettable t.messages handler := by
    rw [hmessages]
    exact resettable_failedCalls
  have hnothing : NothingLeft t.messages (consumer.delegate handler) ↔
      AllSilent consumer [] (failedCalls consumer handler failures)
        (consumer.delegate handler) := by
    rw [hmessages]
    exact (nothingLeft_execs_iff []).trans (and_iff_right nothingLeft_new)
  have hs : s.messages = t.messages.execs consumer (consumer.delegate handler) :=
    attempt_messages hlast
  have hon := once_messages honce
  rw [← hnothing]
  constructor
  · intro h
    have hevents := h.messages
    have hcommands := h.commands
    rw [hs, hon] at hevents hcommands
    obtain ⟨hstates, hqueue, hanyway⟩ := (eventMessageStates_perm_iff hreset).1 hevents
    obtain ⟨hcommandStates, hcommandQueue⟩ := (commandMessageStates_perm_iff handler).1 hcommands
    exact ⟨hstates, hcommandStates, hqueue, hanyway, hcommandQueue⟩
  · intro h
    have hevents : s.messages.eventMessageStates.Perm once.messages.eventMessageStates := by
      rw [hs, hon]
      exact (eventMessageStates_perm_iff hreset).2 ⟨h.eventMessageStates, h.events, h.anyway⟩
    have hcommands : s.messages.commandMessageStates.Perm once.messages.commandMessageStates := by
      rw [hs, hon]
      exact (commandMessageStates_perm_iff handler).2 ⟨h.commandMessageStates, h.commands⟩
    have hadded : NoRows t.db.added :=
      ⟨List.subset_nil.1 (h.eventMessageStates ▸ htracked.unPublishedEvents),
        List.subset_nil.1 (h.commandMessageStates ▸ htracked.unSentCommands)⟩
    obtain ⟨hunPublished, hunSent⟩ := attempt_rows hlast hadded
    obtain ⟨hunPublished', hunSent'⟩ := attempt_rows hfirst ⟨rfl, rfl⟩
    refine ⟨hevents, hcommands, ?_, ?_⟩
    · rw [hunPublished, hunPublished', unPublishedEvents_rows, unPublishedEvents_rows]
      split
      · exact hevents
      · exact List.Perm.refl _
    · rw [hunSent, hunSent', unSentCommands_rows, unSentCommands_rows]
      split
      · exact hcommands
      · exact List.Perm.refl _

end Transparency

/-! ## Two handlers -/

section Runs

/-- The keys of the entities; each message has a key of its own. -/
def sameKeyNat : Entity Nat Nat Nat Nat → Entity Nat Nat Nat Nat → Bool
  | .write a, .write b => a == b
  | .command id, .command id' => id == id'
  | .handledEvent id name, .handledEvent id' name' => id == id' && name == name'
  | _, _ => false

/-- A processor whose command needs no reply. -/
def processor : Consumer Nat := .commandProcessor ⟨"c", "k", none, none⟩

/-- A handler that publishes an event, adds an entity and saves. -/
def publishAndAdd : List (HandlerCall Nat Nat Nat Nat) :=
  [.publish ⟨0, 7⟩, .add 1, .saveChanges]

/-- The first attempt fails behind `Publish`. Nothing clears the bus, and the event is published
twice. -/
theorem published_twice :
    ∃ s once,
      executeInTransactionAsync sameKeyNat ⟨true, false, false⟩ processor publishAndAdd
        [⟨1, []⟩] = some s ∧
      executeInTransactionAsync sameKeyNat ⟨true, false, false⟩ processor publishAndAdd [] =
        some once ∧
      ¬ SameOutcome s once := by
  refine ⟨_, _, rfl, rfl, fun h => ?_⟩
  have hlength := h.messages.length_eq
  exact absurd hlength (by decide)

/-- The first attempt fails when it saves. The rollback of the unit of work clears the bus, and the
event is published once. -/
theorem published_once_after_rollback :
    ∃ s once,
      executeInTransactionAsync sameKeyNat ⟨true, true, true⟩ processor publishAndAdd
        [⟨2, [.rollback, .clearMessages false]⟩] = some s ∧
      executeInTransactionAsync sameKeyNat ⟨true, true, true⟩ processor publishAndAdd [] =
        some once ∧
      SameOutcome s once := by
  obtain ⟨s, hs⟩ : ∃ s, executeInTransactionAsync sameKeyNat ⟨true, true, true⟩ processor
      publishAndAdd [⟨2, [.rollback, .clearMessages false]⟩] = some s := ⟨_, rfl⟩
  obtain ⟨once, honce⟩ : ∃ once, executeInTransactionAsync sameKeyNat ⟨true, true, true⟩ processor
      publishAndAdd [] = some once := ⟨_, rfl⟩
  refine ⟨s, once, hs, honce, (sameOutcome_iff_allSilent hs honce).2 ?_⟩
  simp [failedCalls, FailedAttempt.calls, Consumer.delegate, processor, publishAndAdd,
    Cleanup.call, AllSilent, Silent]

end Runs

end IFramework.TransientFaults
