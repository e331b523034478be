import IFramework.Theory.Run
import IFramework.Theory.Tasks

/-!
# What becomes of a send that fails

The task of a `MessageSender` takes one state after the other and calls `SendMessageStateAsync`,
whose task it drops. The call waits for the queue client and then completes the send task of the
state, as `MessagePublisher` or `CommandBus` does. Any exception, of the part that runs before the
first `await` as well, ends in the task that nobody has. The send tasks of a `MessageState` are
completed besides when the token of the caller is cancelled, and by `CommandBus` on a timeout.

An attempt ends as the queue client decides: the Kafka producer tries again until it succeeds or its
token is cancelled, other clients give up. `ended` records the attempts that have ended and how.
`reported_iff_timely` says in which runs every caller has been told by then.
-/

namespace IFramework.SendAttempts

open Machine

/-- The two senders. -/
inductive SenderKind where
  | messagePublisher
  | commandBus
  deriving DecidableEq, Repr

/-- A `MessageState`. Task sources are numbered; several states may have the same one. -/
structure MessageState (C : Type) where
  messageContext : C
  needReply : Bool
  replyTaskCompletionSource : Option Nat
  sendTaskCompletionSource : Option Nat
  deriving DecidableEq, Repr

/-- A `MessageResponse`, with the source of its reply task. -/
structure MessageResponse (C : Type) where
  messageContext : C
  replyTask : Option Nat
  needReply : Bool
  deriving DecidableEq, Repr

/-- The exception of `OnSendTimeout`; no other one comes into a send task. -/
inductive SendException where
  | timeout
  deriving DecidableEq, Repr

/-- How an attempt ends: the broker has the message, or the task of the attempt is faulted or
cancelled. -/
inductive Ending where
  | succeeded
  | failed
  | cancelled
  deriving DecidableEq, Repr

/-- A call of `SendMessageStateAsync`, and whether its token is cancelled. -/
structure Attempt (C : Type) where
  state : MessageState C
  cancelled : Bool
  deriving DecidableEq, Repr

/-- A sender: the queue, the attempts that have not ended, those that have, and the tasks of the
sources; a source that was not created yet is pending. -/
structure Sender (C : Type) where
  messageStateQueue : List (MessageState C)
  attempts : List (Attempt C)
  ended : List (MessageState C × Ending)
  sources : Nat → TaskStatus SendException (MessageResponse C)
  running : Bool

/-- The actions of the callers, of `Start` and `Stop`, of the task of the sender, of the queue
client, and of the tokens. -/
inductive Action (C : Type) where
  | add (state : MessageState C)
  | start
  | stop
  /-- The task takes a state, and the attempt comes to its first `await`. -/
  | take
  /-- The task takes a state, and the attempt throws before: there is no producer for the topic, or
  the message cannot be serialised. -/
  | takeThrows
  /-- The task of the queue client ends, for the attempt at the position. -/
  | finish (position : Nat) (ending : Ending)
  | onSendCancel (source : Nat)
  | onSendTimeout (source : Nat)
  deriving DecidableEq, Repr

namespace Sender

variable {C : Type}

/-- A new sender. -/
def new : Sender C := ⟨[], [], [], fun _ => .pending, false⟩

/-- The response of `CompleteSendingMessage`. -/
def response (kind : SenderKind) (state : MessageState C) : MessageResponse C :=
  match kind with
  | .messagePublisher => ⟨state.messageContext, none, false⟩
  | .commandBus => ⟨state.messageContext, state.replyTaskCompletionSource, state.needReply⟩

/-- Complete the task of a source, unless it has been completed. -/
def trySet (s : Sender C) (source : Nat)
    (outcome : TaskStatus SendException (MessageResponse C)) : Sender C :=
  { s with sources := Function.update s.sources source ((s.sources source).trySet outcome) }

/-- `CompleteSendingMessage`. -/
def completeSendingMessage (s : Sender C) (kind : SenderKind) (state : MessageState C) :
    Sender C :=
  match state.sendTaskCompletionSource with
  | some source => s.trySet source (.result (response kind state))
  | none => s

/-- An attempt ends; only behind a successful one there is something to be done. -/
def finish (s : Sender C) (kind : SenderKind) (state : MessageState C) (ending : Ending) :
    Sender C :=
  let s := { s with ended := s.ended ++ [(state, ending)] }
  if ending = .succeeded then s.completeSendingMessage kind state else s

/-- One step of the sender. -/
def step (kind : SenderKind) (s : Sender C) : Action C → Option (Sender C)
  | .add state => some { s with messageStateQueue := s.messageStateQueue ++ [state] }
  | .start => if s.running then none else some { s with running := true }
  | .stop =>
    if s.running then
      some { s with running := false
                    attempts := s.attempts.map fun attempt => { attempt with cancelled := true } }
    else none
  | .take =>
    match s.running, s.messageStateQueue with
    | true, state :: rest =>
      some { s with messageStateQueue := rest, attempts := s.attempts ++ [⟨state, false⟩] }
    | _, _ => none
  | .takeThrows =>
    match s.running, s.messageStateQueue with
    | true, state :: rest => some ({ s with messageStateQueue := rest }.finish kind state .failed)
    | _, _ => none
  | .finish position ending =>
    match s.attempts[position]? with
    | some attempt =>
      if ending = .cancelled ∧ attempt.cancelled = false then none
      else
        some ({ s with attempts := s.attempts.eraseIdx position }.finish kind attempt.state ending)
    | none => none
  | .onSendCancel source => some (s.trySet source .canceled)
  | .onSendTimeout source =>
    match kind with
    | .commandBus => some (s.trySet source (.faulted .timeout))
    | .messagePublisher => none

/-- The attempt that ends in this step. -/
def ends (s : Sender C) : Action C → Option (MessageState C × Ending)
  | .takeThrows => s.messageStateQueue.head?.map fun state => (state, .failed)
  | .finish position ending =>
    s.attempts[position]?.map fun attempt => (attempt.state, ending)
  | _ => none

/-- The task tells how the attempt has ended: with the response if the message was sent, as faulted
or cancelled otherwise. -/
def Tells (task : TaskStatus SendException (MessageResponse C)) (response : MessageResponse C) :
    Ending → Prop
  | .succeeded => task = .result response
  | _ => task = .canceled ∨ ∃ e, task = .faulted e

/-- The send task of every state whose attempt has ended tells how. -/
def Reported (kind : SenderKind) (s : Sender C) : Prop :=
  ∀ state ending, (state, ending) ∈ s.ended → ∀ source,
    state.sendTaskCompletionSource = some source →
      Tells (s.sources source) (response kind state) ending

/-- If an attempt ends with success, its send task is pending or has this response; if it ends
otherwise, the send task has been cancelled or has timed out before. -/
def Timely (kind : SenderKind) (s : Sender C) (a : Action C) : Prop :=
  s.step kind a ≠ none → ∀ state ending, s.ends a = some (state, ending) → ∀ source,
    state.sendTaskCompletionSource = some source →
      Tells (s.sources source) (response kind state) ending ∨
        ending = .succeeded ∧ s.sources source = .pending

/-! ## Steps -/

variable {kind : SenderKind} {s s' : Sender C} {a : Action C}

/-- A step ends an attempt, or leaves what has ended alone and completes a task at most. -/
theorem step_cases (h : s.step kind a = some s') :
    (∃ state ending, s.ends a = some (state, ending) ∧
        s'.ended = s.ended ++ [(state, ending)] ∧
        s'.sources = (s.finish kind state ending).sources) ∨
      s.ends a = none ∧ s'.ended = s.ended ∧
        (s'.sources = s.sources ∨ ∃ source outcome, s'.sources = (s.trySet source outcome).sources)
    := by
  have hended : ∀ (s : Sender C) state ending,
      (s.finish kind state ending).ended = s.ended ++ [(state, ending)] := by
    intro s state ending
    unfold finish completeSendingMessage
    split
    · split <;> rfl
    · rfl
  cases a with
  | add state =>
    cases h
    exact .inr ⟨rfl, rfl, .inl rfl⟩
  | start =>
    simp only [step] at h
    split at h
    · cases h
    · cases h
      exact .inr ⟨rfl, rfl, .inl rfl⟩
  | stop =>
    simp only [step] at h
    split at h
    · cases h
      exact .inr ⟨rfl, rfl, .inl rfl⟩
    · cases h
  | take =>
    simp only [step] at h
    split at h
    · cases h
      exact .inr ⟨rfl, rfl, .inl rfl⟩
    · cases h
  | takeThrows =>
    simp only [step] at h
    split at h
    · next state rest _ hqueue =>
      cases h
      exact .inl ⟨state, .failed, by simp [ends, hqueue], hended _ _ _, rfl⟩
    · cases h
  | finish position ending =>
    simp only [step] at h
    split at h
    · next attempt hattempt =>
      split at h
      · cases h
      · cases h
        refine .inl ⟨attempt.state, ending, by simp [ends, hattempt], hended _ _ _, ?_⟩
        unfold finish completeSendingMessage
        split
        · split <;> rfl
        · rfl
    · cases h
  | onSendCancel source =>
    cases h
    exact .inr ⟨rfl, rfl, .inr ⟨source, .canceled, rfl⟩⟩
  | onSendTimeout source =>
    cases kind with
    | commandBus =>
      cases h
      exact .inr ⟨rfl, rfl, .inr ⟨source, .faulted .timeout, rfl⟩⟩
    | messagePublisher => cases h

/-- A task that tells how an attempt has ended is completed. -/
theorem Tells.isCompleted {task : TaskStatus SendException (MessageResponse C)}
    {response : MessageResponse C} {ending : Ending} (h : Tells task response ending) :
    task.IsCompleted := by
  cases ending with
  | succeeded =>
    rw [Tells] at h
    rw [h]
    exact nofun
  | failed => rcases h with rfl | ⟨e, rfl⟩ <;> exact nofun
  | cancelled => rcases h with rfl | ⟨e, rfl⟩ <;> exact nofun

theorem Tells.trySet {response : MessageResponse C} {ending : Ending} {source : Nat}
    (h : Tells (s.sources source) response ending) (source' : Nat)
    (outcome : TaskStatus SendException (MessageResponse C)) :
    Tells ((s.trySet source' outcome).sources source) response ending := by
  by_cases hsource : source = source'
  · subst hsource
    have hkept : (s.trySet source outcome).sources source = s.sources source := by
      simp [Sender.trySet, TaskStatus.trySet_of_isCompleted h.isCompleted]
    rwa [hkept]
  · have hother : (s.trySet source' outcome).sources source = s.sources source := by
      simp [Sender.trySet, hsource]
    rwa [hother]

theorem Tells.finish {response : MessageResponse C} {ending ending' : Ending} {source : Nat}
    {state : MessageState C} (h : Tells (s.sources source) response ending) :
    Tells ((s.finish kind state ending').sources source) response ending := by
  unfold Sender.finish completeSendingMessage
  split
  · split
    · exact h.trySet _ _
    · exact h
  · exact h

theorem tells_finish_iff {state : MessageState C} {ending : Ending} {source : Nat}
    (hsource : state.sendTaskCompletionSource = some source) :
    Tells ((s.finish kind state ending).sources source) (response kind state) ending ↔
      Tells (s.sources source) (response kind state) ending ∨
        ending = .succeeded ∧ s.sources source = .pending := by
  cases ending with
  | succeeded =>
    have hsources : (s.finish kind state .succeeded).sources source =
        (s.sources source).trySet (.result (response kind state)) := by
      simp [Sender.finish, completeSendingMessage, hsource, Sender.trySet]
    rw [hsources]
    rcases TaskStatus.trySet_cases (s.sources source) (.result (response kind state)) with
      ⟨hpending, hset⟩ | ⟨hpending, hset⟩
    · exact iff_of_true hset (.inr ⟨rfl, hpending⟩)
    · rw [hset]
      exact ⟨.inl, fun h => h.resolve_right fun h' => hpending h'.2⟩
  | failed => exact ⟨.inl, fun h => h.resolve_right fun h' => by simp at h'⟩
  | cancelled => exact ⟨.inl, fun h => h.resolve_right fun h' => by simp at h'⟩

/-! ## Runs -/

/-- A step keeps what was reported, and reports the attempt that it ends if it is timely. -/
theorem Reported.step_iff (h : s.Reported kind) (hstep : s.step kind a = some s') :
    s'.Reported kind ↔ s.Timely kind a := by
  have henabled : s.step kind a ≠ none := by simp [hstep]
  rcases step_cases hstep with ⟨state, ending, hends, hended, hsources⟩ |
    ⟨hends, hended, hsources⟩
  · constructor
    · intro h' _ state' ending' hends' source hsource
      rw [hends] at hends'
      cases hends'
      have htells := h' state ending (hended ▸ List.mem_append_right _ List.mem_cons_self) source
        hsource
      rw [hsources] at htells
      exact (tells_finish_iff hsource).1 htells
    · intro htimely state' ending' hmem source hsource
      rw [hsources]
      rw [hended, List.mem_append, List.mem_singleton] at hmem
      rcases hmem with hmem | heq
      · exact (h state' ending' hmem source hsource).finish
      · cases heq
        exact (tells_finish_iff hsource).2 (htimely henabled state ending hends source hsource)
  · refine iff_of_true ?_ ?_
    · intro state ending hmem source hsource
      have htells := h state ending (hended ▸ hmem) source hsource
      rcases hsources with heq | ⟨source', outcome, heq⟩
      · rwa [heq]
      · rw [heq]
        exact htells.trySet source' outcome
    · intro _ state ending hends'
      rw [hends] at hends'
      cases hends'

/-- In every state of a run the send task of every attempt that has ended tells how, exactly when
every attempt of the run ends while its send task is pending, or has been cancelled or timed out,
as its ending requires. -/
theorem reported_iff_timely (kind : SenderKind) (as : List (Action C)) :
    Along (step kind) (fun s a => ∀ s', s.step kind a = some s' → s'.Reported kind) new as ↔
      Along (step kind) (Timely kind) new as := by
  have hnew : (new : Sender C).Reported kind := by simp [Reported, new]
  refine Along.congr (P := fun _ _ => True) (Reported kind) ?_ ?_ hnew
    (Along.of_forall (fun _ _ => trivial) new as)
  · intro s a s' _ _ hreported hstep
    exact hreported s' hstep
  · intro s a h _
    cases hstep : s.step kind a with
    | none => exact iff_of_true nofun fun hne => absurd hstep hne
    | some s' =>
      have hiff := h.step_iff hstep
      constructor
      · intro hall
        exact hiff.1 (hall s' rfl)
      · intro htimely t ht
        cases ht
        exact hiff.2 htimely

end Sender

/-- There is no producer for the topic of the message: its attempt ends, and its send task stays
pending. -/
theorem not_reported_takeThrows :
    ∃ s, run (Sender.step .messagePublisher) (Sender.new : Sender String)
        [.start, .add ⟨"OrderPlaced", false, none, some 0⟩, .takeThrows] = some s ∧
      s.sources 0 = .pending ∧ ¬s.Reported .messagePublisher := by
  refine ⟨_, rfl, rfl, ?_⟩
  intro h
  rcases h _ _ List.mem_cons_self 0 rfl with hcanceled | ⟨e, hfaulted⟩
  · cases hcanceled
  · cases hfaulted

end IFramework.SendAttempts
