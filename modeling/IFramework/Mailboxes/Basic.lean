import IFramework.Base
import IFramework.Theory.Run

/-!
# The mailbox processor

`MailboxProcessor`, `Mailbox` and `DefaultProcessingMessageScheduler` as one step function. The
parties are the callers of `Process`, the single command thread, the `Run` loops and the tasks
they await. An action is one atomic operation of one party: an operation on the command
collection, on the dictionary, on a message queue or on a handling flag, the start of a task, its
completion, or the setting of a completion source.

A `Run` loop is entered by a call of `ScheduleMailbox`. Called from the command thread it occupies
that thread until it first awaits a task that has not completed (`onCommandThread`). The last call
of `Run` is `ExitHandlingMessage`, whose last call may be `ScheduleMailbox` again; the loop that
this enters is modelled by the same record, started afresh.

`History` records what happened and is read by no step.
-/

namespace IFramework.Mailboxes

/-- A `MailboxMessage`; `id` is the identity of the object. `resultAccessible` says whether the
type of the task's result is accessible from the assembly of `Mailbox`: of a task whose result has
an anonymous type, or one internal to the caller, `(dynamic) task` shows no `Result`. -/
structure MailboxMessage where
  id : Nat
  key : String
  hasReturnValue : Bool
  resultAccessible : Bool
  deriving DecidableEq, Repr

/-- How the task of a message ends: with a value, or with an exception thrown by the task or by
its synchronous start. -/
inductive TaskOutcome (V E : Type) where
  | result (value : V)
  | exception (ex : E)
  deriving DecidableEq, Repr

/-- What the `catch` of a `Run` loop catches: what the task or its synchronous start threw, or the
`RuntimeBinderException` of reading `Result`. -/
inductive Fault (E : Type) where
  | thrown (ex : E)
  | runtimeBinder
  deriving DecidableEq, Repr

/-- What a `Run` loop sets on a `TaskCompletionSource`. -/
inductive Completion (V E : Type) where
  | setResult (returnValue : Option V)
  | setException (ex : Fault E)
  deriving DecidableEq, Repr

/-- The `IMailboxProcessorCommand`s; a mailbox is named by its index. -/
inductive Command where
  | processMessage (message : MailboxMessage)
  | completeMessage (mailbox : Nat)
  deriving DecidableEq, Repr

/-- A `Mailbox` object. -/
structure Mailbox where
  key : String
  messageQueue : List MailboxMessage
  isHandlingMessage : Bool
  deriving DecidableEq, Repr

/-- The next operation of the command thread. -/
inductive CommandPoint where
  | take
  | getOrAdd (message : MailboxMessage)
  | enqueue (mailbox : Nat) (message : MailboxMessage)
  | schedule (mailbox : Nat)
  | running
  | count (mailbox : Nat)
  | tryRemove (mailbox : Nat)
  deriving DecidableEq, Repr

/-- The next operation of a `Run` loop. -/
inductive RunPoint (V E : Type) where
  | loop
  | start (message : MailboxMessage)
  | await (message : MailboxMessage)
  | set (message : MailboxMessage) (outcome : TaskOutcome V E)
  | exchange
  | isEmpty
  | reschedule
  | onMessageEmpty
  | ended
  deriving DecidableEq, Repr

/-- A call of `Mailbox.Run`, with the `ExitHandlingMessage` that ends it. -/
structure RunLoop (V E : Type) where
  mailbox : Nat
  processedCount : Nat
  point : RunPoint V E
  onCommandThread : Bool
  deriving DecidableEq, Repr

/-- What has happened so far, in order. -/
structure History (V E : Type) where
  added : List MailboxMessage
  enqueued : List (Nat × MailboxMessage)
  dequeued : List (Nat × MailboxMessage)
  started : List (Nat × MailboxMessage)
  finished : List (MailboxMessage × TaskOutcome V E)
  completions : List (MailboxMessage × Completion V E)

/-- The processor with every mailbox and every `Run` loop it has created. -/
structure State (V E : Type) where
  commands : List Command
  mailboxDictionary : String → Option Nat
  mailboxes : Nat → Mailbox
  mailboxCount : Nat
  commandPoint : CommandPoint
  runs : Nat → RunLoop V E
  runCount : Nat
  history : History V E

variable {V E : Type}

/-- A started processor that has received nothing. -/
def State.init : State V E where
  commands := []
  mailboxDictionary := fun _ => none
  mailboxes := fun _ => ⟨"", [], false⟩
  mailboxCount := 0
  commandPoint := .take
  runs := fun _ => ⟨0, 0, .ended, false⟩
  runCount := 0
  history := ⟨[], [], [], [], [], []⟩

namespace State

/-- Replace the queue of a mailbox. -/
abbrev setQueue (s : State V E) (b : Nat) (queue : List MailboxMessage) : State V E :=
  { s with mailboxes := Function.update s.mailboxes b { s.mailboxes b with messageQueue := queue } }

/-- Write the handling flag of a mailbox. -/
abbrev setHandling (s : State V E) (b : Nat) (flag : Bool) : State V E :=
  { s with
    mailboxes := Function.update s.mailboxes b { s.mailboxes b with isHandlingMessage := flag } }

/-- Move a `Run` loop to its next operation. -/
abbrev setPoint (s : State V E) (r : Nat) (point : RunPoint V E) : State V E :=
  { s with runs := Function.update s.runs r { s.runs r with point := point } }

/-- Move a `Run` loop to an operation at which it gives the command thread back, if it still
occupies it: it awaits a task that is not complete, or it has ended. -/
abbrev release (s : State V E) (r : Nat) (point : RunPoint V E) : State V E :=
  { s with
    commandPoint := if (s.runs r).onCommandThread then .take else s.commandPoint
    runs := Function.update s.runs r { s.runs r with point := point, onCommandThread := false } }

theorem key_setQueue (s : State V E) (b : Nat) (queue : List MailboxMessage) (c : Nat) :
    ((s.setQueue b queue).mailboxes c).key = (s.mailboxes c).key := by
  by_cases hcb : c = b
  · subst hcb
    simp
  · simp [hcb]

theorem isHandlingMessage_setQueue (s : State V E) (b : Nat) (queue : List MailboxMessage)
    (c : Nat) :
    ((s.setQueue b queue).mailboxes c).isHandlingMessage =
      (s.mailboxes c).isHandlingMessage := by
  by_cases hcb : c = b
  · subst hcb
    simp
  · simp [hcb]

theorem key_setHandling (s : State V E) (b : Nat) (flag : Bool) (c : Nat) :
    ((s.setHandling b flag).mailboxes c).key = (s.mailboxes c).key := by
  by_cases hcb : c = b
  · subst hcb
    simp
  · simp [hcb]

theorem messageQueue_setHandling (s : State V E) (b : Nat) (flag : Bool) (c : Nat) :
    ((s.setHandling b flag).mailboxes c).messageQueue = (s.mailboxes c).messageQueue := by
  by_cases hcb : c = b
  · subst hcb
    simp
  · simp [hcb]

end State

/-- What `Run` sets for a task that ended so. The value is read from the task only when the message
has a return value, and the reading is inside the `try`. -/
def completionOf (message : MailboxMessage) : TaskOutcome V E → Completion V E
  | .result value =>
    if message.hasReturnValue then
      if message.resultAccessible then .setResult (some value)
      else .setException .runtimeBinder
    else .setResult none
  | .exception ex => .setException (.thrown ex)

/-- One atomic operation. The task of a message may be complete, or have thrown, when its
synchronous start returns (`startSync`), or complete later (`startAsync`, then `complete`). -/
inductive Action (V E : Type) where
  | process (key : Option String) (hasReturnValue resultAccessible : Bool)
  | command
  | run (r : Nat)
  | startSync (r : Nat) (outcome : TaskOutcome V E)
  | startAsync (r : Nat)
  | complete (r : Nat) (outcome : TaskOutcome V E)

/-- `MailboxProcessor.Process`. With a blank key the task is called directly and the processor is
not involved. -/
def process (s : State V E) (key : Option String) (hasReturnValue resultAccessible : Bool) :
    State V E :=
  match key with
  | none => s
  | some k =>
    if isNullOrWhiteSpace (some k) then s
    else
      let message : MailboxMessage := ⟨s.history.added.length, k, hasReturnValue, resultAccessible⟩
      { s with
        commands := s.commands ++ [.processMessage message]
        history := { s.history with added := s.history.added ++ [message] } }

/-- The next operation of the command thread: `ProcessMailboxProcessorCommands` with
`ExecuteProcessCommand`, `ScheduleMailbox` and `CompleteProcessMessage`. -/
def commandStep (s : State V E) : Option (State V E) :=
  match s.commandPoint with
  | .take =>
    match s.commands with
    | [] => none
    | .processMessage message :: rest =>
      some { s with commands := rest, commandPoint := .getOrAdd message }
    | .completeMessage b :: rest =>
      some { s with commands := rest, commandPoint := .count b }
  | .getOrAdd message =>
    -- the ArgumentException is logged by the loop
    if isNullOrWhiteSpace (some message.key) then some { s with commandPoint := .take }
    else
      match s.mailboxDictionary message.key with
      | some b => some { s with commandPoint := .enqueue b message }
      | none =>
        some { s with
          mailboxDictionary := Function.update s.mailboxDictionary message.key (some s.mailboxCount)
          mailboxes := Function.update s.mailboxes s.mailboxCount ⟨message.key, [], false⟩
          mailboxCount := s.mailboxCount + 1
          commandPoint := .enqueue s.mailboxCount message }
  | .enqueue b message =>
    some { s.setQueue b ((s.mailboxes b).messageQueue ++ [message]) with
      commandPoint := .schedule b
      history := { s.history with enqueued := s.history.enqueued ++ [(b, message)] } }
  | .schedule b =>
    if (s.mailboxes b).isHandlingMessage then some { s with commandPoint := .take }
    else
      some { s.setHandling b true with
        runs := Function.update s.runs s.runCount ⟨b, 0, .loop, true⟩
        runCount := s.runCount + 1
        commandPoint := .running }
  | .running => none
  | .count b =>
    if (s.mailboxes b).messageQueue.length = 0 then some { s with commandPoint := .tryRemove b }
    else some { s with commandPoint := .take }
  | .tryRemove b =>
    some { s with
      mailboxDictionary := Function.update s.mailboxDictionary (s.mailboxes b).key none
      commandPoint := .take }

/-- The next operation of a `Run` loop that depends on no task. -/
def runStep (batchCount : Nat) (s : State V E) (r : Nat) : Option (State V E) :=
  let run := s.runs r
  match run.point with
  | .loop =>
    if run.processedCount < batchCount then
      match (s.mailboxes run.mailbox).messageQueue with
      | [] => some (s.setPoint r .exchange)
      | message :: rest =>
        some { s.setQueue run.mailbox rest with
          runs := Function.update s.runs r
            { run with processedCount := run.processedCount + 1, point := .start message }
          history :=
            { s.history with dequeued := s.history.dequeued ++ [(run.mailbox, message)] } }
    else some (s.setPoint r .exchange)
  | .set message outcome =>
    some { s.setPoint r .loop with
      history :=
        { s.history with
          completions := s.history.completions ++ [(message, completionOf message outcome)] } }
  | .exchange => some ((s.setHandling run.mailbox false).setPoint r .isEmpty)
  | .isEmpty =>
    match (s.mailboxes run.mailbox).messageQueue with
    | [] => some (s.setPoint r .onMessageEmpty)
    | _ :: _ => some (s.setPoint r .reschedule)
  | .reschedule =>
    if (s.mailboxes run.mailbox).isHandlingMessage then some (s.release r .ended)
    else
      some { s.setHandling run.mailbox true with
        runs := Function.update s.runs r { run with processedCount := 0, point := .loop } }
  | .onMessageEmpty =>
    some { s.release r .ended with
      commands := s.commands ++ [.completeMessage run.mailbox] }
  | .start _ | .await _ | .ended => none

/-- One atomic operation of the processor. -/
def step (batchCount : Nat) (s : State V E) : Action V E → Option (State V E)
  | .process key hasReturnValue resultAccessible =>
    some (process s key hasReturnValue resultAccessible)
  | .command => commandStep s
  | .run r => runStep batchCount s r
  | .startSync r outcome =>
    match (s.runs r).point with
    | .start message =>
      some { s.setPoint r (.set message outcome) with
        history :=
          { s.history with
            started := s.history.started ++ [((s.runs r).mailbox, message)]
            finished := s.history.finished ++ [(message, outcome)] } }
    | _ => none
  | .startAsync r =>
    match (s.runs r).point with
    | .start message =>
      some { s.release r (.await message) with
        history :=
          { s.history with
            started := s.history.started ++ [((s.runs r).mailbox, message)] } }
    | _ => none
  | .complete r outcome =>
    match (s.runs r).point with
    | .await message =>
      some { s.setPoint r (.set message outcome) with
        history := { s.history with finished := s.history.finished ++ [(message, outcome)] } }
    | _ => none

end IFramework.Mailboxes
