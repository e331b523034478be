import IFramework.Message.Basic
import IFramework.Theory.Run
import IFramework.Theory.Tasks

/-!
# The replies of a command bus

A `CommandBus` keeps the calls that wait for a reply in `_commandStateQueues`: a call of `SendAsync`
under the id of its command, a call of `StartSaga` under the id of its saga. Three parties work on
the dictionary, each with more than one operation: a call builds its `MessageState` and then calls
`GetOrAdd`, of which it ignores the result; `ConsumeReply` looks a reply up, removes the entry and
completes the task; `OnReplyCancel` cancels the task and then removes the entry under the id of the
command. `step` is one such operation, so that a run is any interleaving of them.

The token of a call may be cancelled as soon as the call has built its state, also before
`GetOrAdd`; with a token that has been cancelled before, this is what happens.
-/

namespace IFramework.Commands.CommandBus

/-- How far `OnReplyCancel` has come for a call. -/
inductive Token where
  | live
  | cancelling
  | cancelled
  deriving DecidableEq, Repr

/-- The `MessageState` of a call, with its `ReplyTaskCompletionSource`. -/
structure MessageState (ε ρ : Type) where
  messageID : String
  sagaId : Option String
  token : Token
  reply : TaskStatus ε ρ

/-- The key of `GetOrAdd`. -/
def MessageState.key {ε ρ : Type} (state : MessageState ε ρ) : String :=
  state.sagaId.getD state.messageID

/-- A reply that is received; its message is an exception or a result. -/
structure Reply (ε ρ : Type) where
  sagaInfo : Option SagaInfo
  correlationId : Option String
  message : Except ε ρ

namespace Reply

variable {ε ρ : Type}

/-- `sagaInfo?.SagaId ?? reply.CorrelationId`. -/
def key (reply : Reply ε ρ) : Option String :=
  (reply.sagaInfo.bind SagaInfo.sagaId).or reply.correlationId

/-- What the task of the call is completed with. -/
def outcome (reply : Reply ε ρ) : TaskStatus ε ρ :=
  match reply.message with
  | .error exception => .faulted exception
  | .ok message => .result message

theorem isCompleted_outcome (reply : Reply ε ρ) : reply.outcome.IsCompleted := by
  unfold outcome
  split <;> exact nofun

end Reply

/-- The next operation of `ConsumeReply`. -/
inductive ReplyPoint where
  | tryGetValue
  | tryRemove (messageState : Nat)
  | trySet (messageState : Nat)
  | finished
  deriving DecidableEq, Repr

/-- `ConsumeReply` is about to remove the entry it has found. -/
def ReplyPoint.isTryRemove : ReplyPoint → Bool
  | tryRemove _ => true
  | _ => false

/-- `ConsumeReply` is about to complete the task of the entry it has removed. -/
def ReplyPoint.isTrySet : ReplyPoint → Bool
  | trySet _ => true
  | _ => false

/-- A call of `ConsumeReply`; `earlier` records the calls that were registered when it looked its
reply up. -/
structure ConsumeReply (ε ρ : Type) where
  correlationId : String
  outcome : TaskStatus ε ρ
  point : ReplyPoint
  earlier : List Nat

/-- A bus, with the message states and the calls of `ConsumeReply` it has created, and the calls in
the order of their `GetOrAdd`, which no operation reads. -/
structure State (ε ρ : Type) where
  states : Nat → MessageState ε ρ
  stateCount : Nat
  replies : Nat → ConsumeReply ε ρ
  replyCount : Nat
  commandStateQueues : String → Option Nat
  registrations : List Nat

/-- The operations. -/
inductive Action (ε ρ : Type) where
  | build (messageID : String) (sagaId : Option String)
  | getOrAdd (i : Nat)
  | trySetCanceled (i : Nat)
  | cancelTryRemove (i : Nat)
  | receive (reply : Reply ε ρ)
  | tryGetValue (h : Nat)
  | replyTryRemove (h : Nat)
  | trySetReply (h : Nat)

variable {ε ρ : Type}

namespace State

/-- A bus that has sent nothing. -/
def init : State ε ρ where
  states := fun _ => ⟨"", none, .cancelled, .canceled⟩
  stateCount := 0
  replies := fun _ => ⟨"", .pending, .finished, []⟩
  replyCount := 0
  commandStateQueues := fun _ => none
  registrations := []

/-- Replace the state of a call. -/
abbrev setState (s : State ε ρ) (i : Nat) (state : MessageState ε ρ) : State ε ρ :=
  { s with states := Function.update s.states i state }

/-- Move a call of `ConsumeReply` to its next operation. -/
abbrev setPoint (s : State ε ρ) (h : Nat) (point : ReplyPoint) : State ε ρ :=
  { s with replies := Function.update s.replies h { s.replies h with point := point } }

/-- Remove the entry under a key. -/
abbrev tryRemove (s : State ε ρ) (key : String) : State ε ρ :=
  { s with commandStateQueues := Function.update s.commandStateQueues key none }

end State

/-- One operation. `WrapCommand` throws on a command without an id; a reply without a key ends
with the `ArgumentNullException` of the dictionary. -/
def step (s : State ε ρ) : Action ε ρ → Option (State ε ρ)
  | .build messageID sagaId =>
    if messageID = "" then none
    else
      some { s with
        states := Function.update s.states s.stateCount ⟨messageID, sagaId, .live, .pending⟩
        stateCount := s.stateCount + 1 }
  | .getOrAdd i =>
    if i < s.stateCount ∧ i ∉ s.registrations then
      some { s with
        commandStateQueues :=
          if s.commandStateQueues (s.states i).key = none then
            Function.update s.commandStateQueues (s.states i).key (some i)
          else s.commandStateQueues
        registrations := s.registrations ++ [i] }
    else none
  | .trySetCanceled i =>
    if (s.states i).token = .live then
      some (s.setState i
        { s.states i with
          token := .cancelling
          reply := (s.states i).reply.trySet .canceled })
    else none
  | .cancelTryRemove i =>
    if (s.states i).token = .cancelling then
      some ((s.setState i { s.states i with token := .cancelled }).tryRemove
        (s.states i).messageID)
    else none
  | .receive reply =>
    match reply.key with
    | none => some s
    | some correlationId =>
      some { s with
        replies := Function.update s.replies s.replyCount
          ⟨correlationId, reply.outcome, .tryGetValue, []⟩
        replyCount := s.replyCount + 1 }
  | .tryGetValue h =>
    if (s.replies h).point = .tryGetValue then
      let point :=
        match s.commandStateQueues (s.replies h).correlationId with
        | none => .finished
        | some i => .tryRemove i
      some { s with
        replies := Function.update s.replies h
          { s.replies h with point := point, earlier := s.registrations } }
    else none
  | .replyTryRemove h =>
    match (s.replies h).point with
    | .tryRemove i => some ((s.setPoint h (.trySet i)).tryRemove (s.replies h).correlationId)
    | _ => none
  | .trySetReply h =>
    match (s.replies h).point with
    | .trySet i =>
      some ((s.setState i
        { s.states i with
          reply := (s.states i).reply.trySet (s.replies h).outcome }).setPoint h .finished)
    | _ => none

/-! ## Transitions -/

/-- What an operation does: `GetOrAdd` adds the entry or keeps the one it finds, a reply has a key
or is dropped, and its entry is found or not. -/
inductive Transition (s : State ε ρ) : Action ε ρ → State ε ρ → Prop
  | build {messageID : String} {sagaId : Option String} :
      Transition s (.build messageID sagaId)
        { s with
          states := Function.update s.states s.stateCount ⟨messageID, sagaId, .live, .pending⟩
          stateCount := s.stateCount + 1 }
  | added {i : Nat} (hi : i < s.stateCount) (hfree : s.commandStateQueues (s.states i).key = none) :
      Transition s (.getOrAdd i)
        { s with
          commandStateQueues :=
            Function.update s.commandStateQueues (s.states i).key (some i)
          registrations := s.registrations ++ [i] }
  | ignored {i : Nat} (hentry : s.commandStateQueues (s.states i).key ≠ none) :
      Transition s (.getOrAdd i) { s with registrations := s.registrations ++ [i] }
  | trySetCanceled {i : Nat} :
      Transition s (.trySetCanceled i)
        (s.setState i
          { s.states i with token := .cancelling, reply := (s.states i).reply.trySet .canceled })
  | cancelTryRemove {i : Nat} (htoken : (s.states i).token = .cancelling) :
      Transition s (.cancelTryRemove i)
        ((s.setState i { s.states i with token := .cancelled }).tryRemove (s.states i).messageID)
  | dropped {reply : Reply ε ρ} : Transition s (.receive reply) s
  | receive {reply : Reply ε ρ} {correlationId : String} :
      Transition s (.receive reply)
        { s with
          replies := Function.update s.replies s.replyCount
            ⟨correlationId, reply.outcome, .tryGetValue, []⟩
          replyCount := s.replyCount + 1 }
  | missed {h : Nat} (hpoint : (s.replies h).point = .tryGetValue)
      (hentry : s.commandStateQueues (s.replies h).correlationId = none) :
      Transition s (.tryGetValue h)
        { s with
          replies := Function.update s.replies h
            { s.replies h with point := .finished, earlier := s.registrations } }
  | found {h i : Nat} (hpoint : (s.replies h).point = .tryGetValue)
      (hentry : s.commandStateQueues (s.replies h).correlationId = some i) :
      Transition s (.tryGetValue h)
        { s with
          replies := Function.update s.replies h
            { s.replies h with point := .tryRemove i, earlier := s.registrations } }
  | replyTryRemove {h i : Nat} (hpoint : (s.replies h).point = .tryRemove i) :
      Transition s (.replyTryRemove h)
        ((s.setPoint h (.trySet i)).tryRemove (s.replies h).correlationId)
  | trySetReply {h i : Nat} (hpoint : (s.replies h).point = .trySet i) :
      Transition s (.trySetReply h)
        ((s.setState i
          { s.states i with
            reply := (s.states i).reply.trySet (s.replies h).outcome }).setPoint h .finished)

theorem Transition.of_step {s s' : State ε ρ} {a : Action ε ρ} (hstep : step s a = some s') :
    Transition s a s' := by
  cases a with
  | build messageID sagaId =>
    simp only [step] at hstep
    split at hstep
    · cases hstep
    · cases hstep
      exact .build
  | getOrAdd i =>
    simp only [step] at hstep
    split at hstep
    · next hi =>
      cases hstep
      split
      · next hfree => exact .added hi.1 hfree
      · next hentry => exact .ignored hentry
    · cases hstep
  | trySetCanceled i =>
    simp only [step] at hstep
    split at hstep
    · cases hstep
      exact .trySetCanceled
    · cases hstep
  | cancelTryRemove i =>
    simp only [step] at hstep
    split at hstep
    · next htoken =>
      cases hstep
      exact .cancelTryRemove htoken
    · cases hstep
  | receive reply =>
    simp only [step] at hstep
    split at hstep
    · cases hstep
      exact .dropped
    · cases hstep
      exact .receive
  | tryGetValue h =>
    simp only [step] at hstep
    split at hstep
    · next hpoint =>
      cases hstep
      split
      · next hentry => exact .missed hpoint hentry
      · next i hentry => exact .found hpoint hentry
    · cases hstep
  | replyTryRemove h =>
    simp only [step] at hstep
    split at hstep
    · next i hpoint =>
      cases hstep
      exact .replyTryRemove hpoint
    · cases hstep
  | trySetReply h =>
    simp only [step] at hstep
    split at hstep
    · next i hpoint =>
      cases hstep
      exact .trySetReply hpoint
    · cases hstep

/-! ## What becomes of a call -/

/-- The calls that have been built stay, with their keys, and a completed task stays completed. -/
structure Evolves (s s' : State ε ρ) : Prop where
  stateCount : s.stateCount ≤ s'.stateCount
  key : ∀ i, i < s.stateCount → (s'.states i).key = (s.states i).key
  pending : ∀ i, i < s.stateCount → (s'.states i).reply = .pending → (s.states i).reply = .pending

theorem evolves_setState {s : State ε ρ} {i : Nat} {state : MessageState ε ρ}
    (hkey : state.key = (s.states i).key)
    (hpending : state.reply = .pending → (s.states i).reply = .pending) :
    Evolves s (s.setState i state) := by
  refine ⟨Nat.le_refl _, ?_, ?_⟩
  · intro j _
    by_cases hji : j = i
    · subst hji
      simpa using hkey
    · simp [hji]
  · intro j _
    by_cases hji : j = i
    · subst hji
      simpa using hpending
    · simp [hji]

theorem pending_of_trySet {t outcome : TaskStatus ε ρ} (houtcome : outcome.IsCompleted)
    (h : t.trySet outcome = .pending) : t = .pending := by
  rcases TaskStatus.trySet_cases t outcome with ⟨-, heq⟩ | ⟨-, heq⟩
  · exact absurd (heq.symm.trans h) houtcome
  · exact heq.symm.trans h

end IFramework.Commands.CommandBus
