import IFramework.Message.MessageSender
import IFramework.Theory.Tasks

/-!
# The task of a batch of messages

`SendAsync(cancellationToken, messages)` returns the task that joins the send tasks of its messages.
It creates one `TaskCompletionSource` and puts it into the state of every message, so that the first
message that is sent completes the tasks of all of them. The batch is completed as it should be for
one message only (`completes_iff_single`).

`Publisher` adds to the `MessageSender` the sources that were created so far. A message counts as
sent when its attempt has succeeded; in the same step `CompleteSendingMessage` completes its source.
-/

namespace IFramework.Publishing

open Machine

/-- A `MessageResponse`; no reply is needed. -/
structure MessageResponse (C : Type) where
  messageContext : C
  deriving DecidableEq, Repr

/-- A `MessageState`, with the number of its `SendTaskCompletionSource`. -/
structure MessageState (C : Type) where
  messageContext : C
  sendTaskCompletionSource : Option Nat
  deriving DecidableEq, Repr

/-- The token of a call: `CancellationToken.None`, or one that can be cancelled or has been. -/
inductive Token where
  | none
  | live
  | cancelled
  deriving DecidableEq, Repr

/-- A `TaskCompletionSource<MessageResponse>`, with the token that calls `OnSendCancel` on it. -/
structure Source (C : Type) where
  task : TaskStatus Empty (MessageResponse C)
  token : Token

/-- A `MessagePublisher`: the sender and the sources. -/
structure Publisher (C : Type) where
  sender : MessageSender (MessageState C)
  sources : List (Source C)

/-- The actions: calls of `SendAsync`, which return or throw, the cancellation of the token of a
source, and the steps of the sender. -/
inductive Action (C : Type) where
  | sendAsync (cancellable : Bool) (contexts : List C)
  /-- The token is cancelled when the states of these messages have been added. -/
  | sendAsyncThrows (added : List C)
  | cancel (source : Nat)
  | sender (action : MessageSender.Action (MessageState C))

namespace Publisher

variable {C : Type}

/-- A new publisher. -/
def new : Publisher C := ⟨.new, []⟩

/-- `OnSendCancel`, called when the token is cancelled. -/
def onSendCancel (source : Source C) : Source C :=
  ⟨source.task.trySet .canceled, .cancelled⟩

/-- `CompleteSendingMessage`. -/
def completeSendingMessage (p : Publisher C) (state : MessageState C) : Publisher C :=
  match state.sendTaskCompletionSource with
  | some k =>
    { p with
      sources := p.sources.modify k fun source =>
        { source with task := source.task.trySet (.result ⟨state.messageContext⟩) } }
  | none => p

/-- The states that `SendAsync` creates for its messages, given by the contexts in which they are
wrapped: all with the source that it creates. -/
def messageStates (p : Publisher C) (contexts : List C) : List (MessageState C) :=
  contexts.map fun messageContext => ⟨messageContext, some p.sources.length⟩

/-- `SendAsync`, with its source, after these states have been added. -/
def addStates (p : Publisher C) (source : Source C) (states : List (MessageState C)) :
    Publisher C where
  sender := states.foldl MessageSender.add p.sender
  sources := p.sources ++ [source]

/-- `SendAsync`. -/
def sendAsync (p : Publisher C) (cancellable : Bool) (contexts : List C) : Publisher C :=
  p.addStates ⟨.pending, if cancellable then .live else .none⟩ (p.messageStates contexts)

/-- The task that `SendAsync` returns for these states. -/
def task (p : Publisher C) (states : List (MessageState C)) :
    TaskStatus (List Empty) (List (MessageResponse C)) :=
  TaskStatus.whenAll (states.filterMap fun state =>
    state.sendTaskCompletionSource.bind fun k => p.sources[k]?.map Source.task)

/-- One step of the publisher. -/
def step (p : Publisher C) : Action C → Option (Publisher C)
  | .sendAsync cancellable contexts => some (p.sendAsync cancellable contexts)
  | .sendAsyncThrows added => some (p.addStates ⟨.canceled, .cancelled⟩ (p.messageStates added))
  | .cancel k =>
    match p.sources[k]? with
    | some source =>
      if source.token = .live then some { p with sources := p.sources.modify k onSendCancel }
      else none
    | none => none
  | .sender (.add state) =>
    -- `Start` adds the messages of the store, without a source
    if state.sendTaskCompletionSource = none then some { p with sender := p.sender.add state }
    else none
  | .sender (.succeed position) =>
    match p.sender.calls[position]?, MessageSender.step p.sender (.succeed position) with
    | some send, some sender =>
      some ({ p with sender := sender }.completeSendingMessage send.queued.state)
    | _, _ => none
  | .sender action =>
    (MessageSender.step p.sender action).map fun sender => { p with sender := sender }

/-- The message with this number has been sent. -/
def Sent (p : Publisher C) (number : Nat) : Prop :=
  ∃ state, .produced ⟨number, state⟩ ∈ p.sender.log

/-- The task of a call of `SendAsync` that was made in `p` is as it should be in `q`: it is
completed only when all messages have been sent or the token was cancelled, and its responses carry
the contexts of the messages in order. -/
structure Completes (p q : Publisher C) (contexts : List C) : Prop where
  sent : (q.task (p.messageStates contexts)).IsCompleted →
    (∀ i < contexts.length, q.Sent (p.sender.added.length + i)) ∨
      (q.sources[p.sources.length]?.map Source.token) = some .cancelled
  responses : ∀ responses, q.task (p.messageStates contexts) = .result responses →
    responses.map MessageResponse.messageContext = contexts

end Publisher

/-! ## What the sender does to its states -/

section Numbered

variable {M : Type} {s s' : MessageSender M}

/-- Wherever a state is in the sender, its number says when it was added. -/
structure Numbered (s : MessageSender M) : Prop where
  queue : ∀ q ∈ s.messageStateQueue, s.added[q.number]? = some q.state
  calls : ∀ send ∈ s.calls, s.added[send.queued.number]? = some send.queued.state
  delayed : ∀ send ∈ s.delayed, s.added[send.queued.number]? = some send.queued.state
  produced : ∀ q, .produced q ∈ s.log → s.added[q.number]? = some q.state

namespace Numbered

theorem new : Numbered (.new : MessageSender M) := by
  constructor <;> simp [MessageSender.new]

theorem getElem?_of_concat {l : List M} {n : Nat} {m m' : M} (h : l[n]? = some m) :
    (l ++ [m'])[n]? = some m := by
  rw [List.getElem?_append_left (List.getElem?_eq_some_iff.1 h).1, h]

theorem add (h : Numbered s) (m : M) : Numbered (s.add m) where
  queue q hq := by
    rcases List.mem_append.1 hq with hold | hnew
    · exact getElem?_of_concat (h.queue q hold)
    · cases List.mem_singleton.1 hnew
      exact List.getElem?_concat_length
  calls send hsend := getElem?_of_concat (h.calls send hsend)
  delayed send hsend := getElem?_of_concat (h.delayed send hsend)
  produced q hq := getElem?_of_concat (h.produced q hq)

theorem foldl_add (h : Numbered s) (ms : List M) : Numbered (ms.foldl MessageSender.add s) := by
  induction ms generalizing s with
  | nil => exact h
  | cons m ms ih => exact ih (h.add m)

theorem step {a : MessageSender.Action M} (h : Numbered s)
    (hstep : MessageSender.step s a = some s') : Numbered s' := by
  cases MessageSender.Transition.of_step hstep with
  | add state => exact h.add state
  | start => exact ⟨h.queue, h.calls, h.delayed, h.produced⟩
  | stop =>
    refine ⟨h.queue, ?_, ?_, h.produced⟩
    · simpa [MessageSender.Send.cancel] using h.calls
    · simpa [MessageSender.Send.cancel] using h.delayed
  | @take queued rest _ hqueue =>
    have hq := h.queue
    rw [hqueue] at hq
    refine ⟨fun q hmem => hq q (List.mem_cons_of_mem _ hmem), ?_, h.delayed, h.produced⟩
    simpa [or_imp, forall_and] using ⟨h.calls, hq queued List.mem_cons_self⟩
  | takeThrows _ hqueue =>
    have hq := h.queue
    rw [hqueue] at hq
    exact ⟨fun q hmem => hq q (List.mem_cons_of_mem _ hmem), h.calls, h.delayed, h.produced⟩
  | @succeed position send hsend =>
    refine ⟨h.queue, fun send hs => h.calls send (List.eraseIdx_subset hs), h.delayed, ?_⟩
    intro q hq
    rcases List.mem_append.1 hq with hold | hnew
    · exact h.produced q hold
    · cases List.mem_singleton.1 hnew
      exact h.calls send (List.mem_of_getElem? hsend)
  | @fail position send hsend =>
    refine ⟨h.queue, fun send hs => h.calls send (List.eraseIdx_subset hs), ?_, ?_⟩
    · simpa [or_imp, forall_and] using ⟨h.delayed, h.calls send (List.mem_of_getElem? hsend)⟩
    · intro q hq
      exact h.produced q (by simpa using hq)
  | @retry position send hsend _ =>
    refine ⟨h.queue, ?_, fun send hs => h.delayed send (List.eraseIdx_subset hs), h.produced⟩
    simpa [or_imp, forall_and] using ⟨h.calls, h.delayed send (List.mem_of_getElem? hsend)⟩
  | drop =>
    exact ⟨h.queue, h.calls, fun send hs => h.delayed send (List.eraseIdx_subset hs), h.produced⟩

end Numbered

/-- Only `add` adds a state, and nothing that was produced is taken back. -/
theorem frame_of_step {a : MessageSender.Action M} (h : MessageSender.step s a = some s')
    (ha : ∀ m, a ≠ .add m) :
    (∀ q, .produced q ∈ s.log → .produced q ∈ s'.log) ∧ s'.added = s.added := by
  cases MessageSender.Transition.of_step h with
  | add state => exact absurd rfl (ha state)
  | succeed => exact ⟨fun _ hq => List.mem_append_left _ hq, rfl⟩
  | fail => exact ⟨fun _ hq => List.mem_append_left _ hq, rfl⟩
  | _ => exact ⟨fun _ hq => hq, rfl⟩

/-- The states that are added one after the other are numbered and stand at the end of the queue. -/
theorem foldl_add_eq (ms : List M) (s : MessageSender M) :
    ms.foldl MessageSender.add s =
      { s with
        added := s.added ++ ms
        messageStateQueue :=
          s.messageStateQueue ++ ms.mapIdx fun i m => ⟨s.added.length + i, m⟩ } := by
  induction ms generalizing s with
  | nil => simp
  | cons m ms ih =>
    rw [List.foldl_cons, ih]
    simp [MessageSender.add, List.mapIdx_cons, Nat.add_assoc, Nat.add_comm 1]

end Numbered

/-! ## Steps -/

namespace Publisher

variable {C : Type} {p p' : Publisher C}

/-- What a step does: it adds the states of a call and their source, cancels a token, moves states
in the sender, or completes the source of a message that is sent. -/
inductive Transition (p : Publisher C) : Publisher C → Prop
  | adds {source : Source C} {states : List (MessageState C)}
      (hsource : source.task = .pending ∨ source.token = .cancelled ∧ source.task = .canceled)
      (hstates : ∀ st ∈ states, st.sendTaskCompletionSource = some p.sources.length) :
      Transition p (p.addStates source states)
  | cancels {k : Nat} : Transition p { p with sources := p.sources.modify k onSendCancel }
  | moves {action : MessageSender.Action (MessageState C)}
      {sender : MessageSender (MessageState C)} (added : List (MessageState C))
      (hstep : MessageSender.step p.sender action = some sender)
      (hadded : sender.added = p.sender.added ++ added)
      (hsource : ∀ st ∈ added, st.sendTaskCompletionSource = none)
      (hlog : ∀ q, .produced q ∈ p.sender.log → .produced q ∈ sender.log) :
      Transition p { p with sender := sender }
  | completes {position : Nat} {send : Send (MessageState C)}
      {sender : MessageSender (MessageState C)}
      (hstep : MessageSender.step p.sender (.succeed position) = some sender)
      (hsend : send ∈ p.sender.calls) (hadded : sender.added = p.sender.added)
      (hlog : sender.log = p.sender.log ++ [.produced send.queued]) :
      Transition p ({ p with sender := sender }.completeSendingMessage send.queued.state)

theorem Transition.of_step {action : Action C} (h : p.step action = some p') :
    Transition p p' := by
  cases action with
  | sendAsync cancellable contexts =>
    cases h
    refine .adds (.inl rfl) ?_
    simp [messageStates]
  | sendAsyncThrows added =>
    cases h
    refine .adds (.inr ⟨rfl, rfl⟩) ?_
    simp [messageStates]
  | cancel k =>
    simp only [step] at h
    split at h
    · split at h
      · cases h
        exact .cancels
      · cases h
    · cases h
  | sender action =>
    cases action with
    | add state =>
      simp only [step] at h
      split at h
      · next hnone =>
        cases h
        have hstep : MessageSender.step p.sender (.add state) = some (p.sender.add state) := rfl
        exact .moves [state] hstep rfl (by simpa using hnone) (fun _ hq => hq)
      · cases h
    | succeed position =>
      simp only [step] at h
      split at h
      · next send sender hsend hstep =>
        cases h
        have heq := hstep
        rw [MessageSender.step, hsend] at heq
        cases heq
        exact .completes hstep (List.mem_of_getElem? hsend) rfl rfl
      · cases h
    | _ =>
      obtain ⟨sender, hstep, rfl⟩ := Option.map_eq_some_iff.1 h
      obtain ⟨hlog, hadded⟩ := frame_of_step hstep (by simp)
      exact .moves [] hstep (by simpa using hadded) (by simp) hlog

/-! ## Sources -/

/-- A source that is modified is the old one, or the result of the modification. -/
theorem getElem?_modify_cases {sources : List (Source C)} {f : Source C → Source C} {j k : Nat}
    {source : Source C} (h : (sources.modify j f)[k]? = some source) :
    sources[k]? = some source ∨ j = k ∧ ∃ old, sources[k]? = some old ∧ source = f old := by
  rw [List.getElem?_modify] at h
  obtain ⟨old, hold, rfl⟩ := Option.map_eq_some_iff.1 h
  by_cases hjk : j = k
  · exact .inr ⟨hjk, old, hold, if_pos hjk⟩
  · rw [if_neg hjk]
    exact .inl hold

/-- A source has the response of a message that was sent with it, or its token was cancelled. -/
structure Sound (p : Publisher C) : Prop where
  numbered : Numbered p.sender
  bounded : ∀ st ∈ p.sender.added, ∀ k, st.sendTaskCompletionSource = some k →
    k < p.sources.length
  result : ∀ (k : Nat) source r, p.sources[k]? = some source → source.task = .result r →
    ∃ q, .produced q ∈ p.sender.log ∧ q.state.sendTaskCompletionSource = some k ∧
      q.state.messageContext = r.messageContext
  canceled : ∀ (k : Nat) source, p.sources[k]? = some source → source.task = .canceled →
    source.token = .cancelled

namespace Sound

theorem new : Sound (new : Publisher C) := by
  refine ⟨.new, ?_, ?_, ?_⟩ <;> simp [Publisher.new, MessageSender.new]

theorem addStates (h : Sound p) {source : Source C} {states : List (MessageState C)}
    (hsource : source.task = .pending ∨ source.token = .cancelled ∧ source.task = .canceled)
    (hstates : ∀ st ∈ states, st.sendTaskCompletionSource = some p.sources.length) :
    Sound (p.addStates source states) := by
  have hadded : (p.addStates source states).sender.added = p.sender.added ++ states := by
    simp [Publisher.addStates]
  have hlog : (p.addStates source states).sender.log = p.sender.log := by
    simp [Publisher.addStates, foldl_add_eq]
  refine ⟨h.numbered.foldl_add states, ?_, ?_, ?_⟩
  · intro st hst k hk
    rw [hadded, List.mem_append] at hst
    simp only [Publisher.addStates, List.length_append, List.length_singleton]
    rcases hst with hold | hnew
    · exact Nat.lt_succ_of_lt (h.bounded st hold k hk)
    · rw [hstates st hnew] at hk
      cases hk
      exact Nat.lt_succ_self _
  · intro k source' r hk hr
    rw [hlog]
    rcases MessageSender.getElem?_concat hk with ⟨-, hold⟩ | ⟨rfl, rfl⟩
    · exact h.result k source' r hold hr
    · rcases hsource with hpending | ⟨-, hcanceled⟩
      · rw [hpending] at hr
        cases hr
      · rw [hcanceled] at hr
        cases hr
  · intro k source' hk hcanceled
    rcases MessageSender.getElem?_concat hk with ⟨-, hold⟩ | ⟨rfl, rfl⟩
    · exact h.canceled k source' hold hcanceled
    · rcases hsource with hpending | ⟨htoken, -⟩
      · rw [hpending] at hcanceled
        cases hcanceled
      · exact htoken

theorem cancels (h : Sound p) (j : Nat) :
    Sound { p with sources := p.sources.modify j onSendCancel } := by
  refine ⟨h.numbered, ?_, ?_, ?_⟩
  · simpa using h.bounded
  · intro k source r hk hr
    rcases getElem?_modify_cases hk with hold | ⟨rfl, old, hold, rfl⟩
    · exact h.result k source r hold hr
    · rcases old.task.trySet_cases .canceled with ⟨-, heq⟩ | ⟨-, heq⟩
      · simp [onSendCancel, heq] at hr
      · exact h.result j old r hold (by simpa [onSendCancel, heq] using hr)
  · intro k source hk hcanceled
    rcases getElem?_modify_cases hk with hold | ⟨rfl, old, hold, rfl⟩
    · exact h.canceled k source hold hcanceled
    · rfl

theorem completes (h : Sound p) {position : Nat} {send : Send (MessageState C)}
    {sender : MessageSender (MessageState C)}
    (hstep : MessageSender.step p.sender (.succeed position) = some sender)
    (hadded : sender.added = p.sender.added)
    (hlog : sender.log = p.sender.log ++ [.produced send.queued]) :
    Sound ({ p with sender := sender }.completeSendingMessage send.queued.state) := by
  have hold : Sound { p with sender := sender } := by
    refine ⟨h.numbered.step hstep, by simpa [hadded] using h.bounded, ?_, h.canceled⟩
    intro k source r hk hr
    obtain ⟨q, hq, hrest⟩ := h.result k source r hk hr
    exact ⟨q, by rw [hlog]; exact List.mem_append_left _ hq, hrest⟩
  unfold completeSendingMessage
  split
  · next j hj =>
    refine ⟨hold.numbered, by simpa using hold.bounded, ?_, ?_⟩
    · intro k source r hk hr
      rcases getElem?_modify_cases hk with hkept | ⟨rfl, old, hkept, rfl⟩
      · exact hold.result k source r hkept hr
      · -- the task has the response of this message, or had one before
        rcases old.task.trySet_cases (.result ⟨send.queued.state.messageContext⟩) with
          ⟨-, heq⟩ | ⟨-, heq⟩
        · simp only [heq, TaskStatus.result.injEq] at hr
          subst hr
          exact ⟨send.queued, by simp [hlog], hj, rfl⟩
        · exact hold.result j old r hkept (by simpa only [heq] using hr)
    · intro k source hk hcanceled
      rcases getElem?_modify_cases hk with hkept | ⟨rfl, old, hkept, rfl⟩
      · exact hold.canceled k source hkept hcanceled
      · rcases old.task.trySet_cases (.result ⟨send.queued.state.messageContext⟩) with
          ⟨-, heq⟩ | ⟨-, heq⟩
        · simp [heq] at hcanceled
        · exact hold.canceled j old hkept (by simpa only [heq] using hcanceled)
  · exact hold

theorem transition (h : Sound p) (htransition : Transition p p') : Sound p' := by
  cases htransition with
  | adds hsource hstates => exact h.addStates hsource hstates
  | cancels => exact h.cancels _
  | moves added hstep hadded hsource hlog =>
    refine ⟨h.numbered.step hstep, ?_, ?_, h.canceled⟩
    · intro st hst k hk
      rw [hadded, List.mem_append] at hst
      rcases hst with hold | hnew
      · exact h.bounded st hold k hk
      · rw [hsource st hnew] at hk
        cases hk
    · intro k source r hk hr
      obtain ⟨q, hq, hrest⟩ := h.result k source r hk hr
      exact ⟨q, hlog q hq, hrest⟩
  | completes hstep _ hadded hlog => exact h.completes hstep hadded hlog

end Sound

/-- The state with this number is the only one with its source. -/
structure Owns (p : Publisher C) (number : Nat) (state : MessageState C) (k : Nat) : Prop where
  owner : p.sender.added[number]? = some state
  source : state.sendTaskCompletionSource = some k
  exists_source : k < p.sources.length
  unique : ∀ (i : Nat) st, p.sender.added[i]? = some st → st.sendTaskCompletionSource = some k →
    i = number

namespace Owns

variable {number k : Nat} {state : MessageState C}

theorem append (h : Owns p number state k) (added : List (MessageState C))
    (hadded : p'.sender.added = p.sender.added ++ added)
    (hsources : p.sources.length ≤ p'.sources.length)
    (hother : ∀ st ∈ added, st.sendTaskCompletionSource ≠ some k) : Owns p' number state k where
  owner := by
    rw [hadded, List.getElem?_append_left (List.getElem?_eq_some_iff.1 h.owner).1, h.owner]
  source := h.source
  exists_source := Nat.lt_of_lt_of_le h.exists_source hsources
  unique i st hi hst := by
    rw [hadded] at hi
    by_cases hlt : i < p.sender.added.length
    · rw [List.getElem?_append_left hlt] at hi
      exact h.unique i st hi hst
    · rw [List.getElem?_append_right (Nat.not_lt.1 hlt)] at hi
      exact absurd hst (hother st (List.mem_of_getElem? hi))

theorem transition (h : Owns p number state k) (htransition : Transition p p') :
    Owns p' number state k := by
  cases htransition with
  | @adds source states hsource hstates =>
    refine h.append states ?_ ?_ ?_
    · simp [addStates]
    · simp [addStates]
    · intro st hst hk
      rw [hstates st hst] at hk
      cases hk
      exact absurd h.exists_source (Nat.lt_irrefl _)
  | cancels => exact h.append [] (by simp) (by simp) (by simp)
  | moves added hstep hadded hsource hlog =>
    refine h.append added hadded (Nat.le_refl _) ?_
    intro st hst hk
    rw [hsource st hst] at hk
    cases hk
  | @completes position send sender hstep hsend hadded hlog =>
    refine h.append [] ?_ ?_ (by simp)
    · unfold completeSendingMessage
      split <;> simp [hadded]
    · unfold completeSendingMessage
      split <;> simp

/-- `SendAsync` with one message creates a source for this message only. -/
theorem sendAsync (h : Sound p) (cancellable : Bool) (context : C) :
    Owns (p.sendAsync cancellable [context]) p.sender.added.length
      ⟨context, some p.sources.length⟩ p.sources.length where
  owner := List.getElem?_concat_length
  source := rfl
  exists_source := by simp [Publisher.sendAsync, addStates]
  unique i st hi hst := by
    have hadded : (p.sendAsync cancellable [context]).sender.added =
        p.sender.added ++ [⟨context, some p.sources.length⟩] := rfl
    rw [hadded] at hi
    rcases MessageSender.getElem?_concat hi with ⟨-, hold⟩ | ⟨hi, -⟩
    · exact absurd (h.bounded st (List.mem_of_getElem? hold) _ hst) (Nat.lt_irrefl _)
    · exact hi

/-- A message with a source of its own is completed as it should be. -/
theorem completes {q : Publisher C} {context : C}
    (h : Owns q p.sender.added.length ⟨context, some p.sources.length⟩ p.sources.length)
    (hsound : Sound q) : Completes p q [context] := by
  obtain ⟨source, hsource⟩ : ∃ source, q.sources[p.sources.length]? = some source :=
    ⟨_, List.getElem?_eq_getElem h.exists_source⟩
  have htask : q.task (p.messageStates [context]) = TaskStatus.whenAll [source.task] := by
    simp [task, messageStates, hsource]
  -- a response comes from the only message with this source
  have hresult : ∀ r, source.task = .result r →
      q.Sent p.sender.added.length ∧ r.messageContext = context := by
    intro r hr
    obtain ⟨⟨number, state⟩, hq, hk, hcontext⟩ := hsound.result _ _ r hsource hr
    have hadded := hsound.numbered.produced _ hq
    cases h.unique number state hadded hk
    cases h.owner.symm.trans hadded
    exact ⟨⟨_, hq⟩, hcontext.symm⟩
  refine ⟨?_, ?_⟩
  · rw [htask, TaskStatus.isCompleted_whenAll_iff]
    intro hcompleted
    have hpending := hcompleted source.task List.mem_cons_self
    cases hstatus : source.task with
    | pending => exact absurd hstatus hpending
    | result r =>
      refine .inl fun i hi => ?_
      obtain rfl : i = 0 := by simpa using hi
      exact (hresult r hstatus).1
    | faulted error => exact error.elim
    | canceled =>
      refine .inr ?_
      rw [hsource]
      exact congrArg some (hsound.canceled _ _ hsource hstatus)
  · intro responses hresponses
    rw [htask, TaskStatus.whenAll_eq_result_iff] at hresponses
    cases responses with
    | nil => cases hresponses
    | cons r rest =>
      obtain ⟨hr, hrest⟩ := List.cons.inj hresponses
      obtain rfl : rest = [] := by simpa using hrest.symm
      simp [(hresult r hr).2]

end Owns

/-- With several messages, the first one that is sent completes the task of all of them. -/
theorem not_completes_of_two (cancellable : Bool) (c c' : C) (cs : List C) :
    ∃ q, run step (new.sendAsync cancellable (c :: c' :: cs))
        [.sender .start, .sender .take, .sender (.succeed 0)] = some q ∧
      ¬Completes new q (c :: c' :: cs) := by
  let states := new.messageStates (c :: c' :: cs)
  let token : Token := if cancellable then .live else .none
  obtain ⟨rest, hrest⟩ : ∃ rest, new.sendAsync cancellable (c :: c' :: cs) =
      ⟨⟨states, ⟨0, ⟨c, some 0⟩⟩ :: rest, [], [], [], false⟩, [⟨.pending, token⟩]⟩ := by
    have hsend : new.sendAsync cancellable (c :: c' :: cs) =
        ⟨⟨states, states.mapIdx fun i m => ⟨0 + i, m⟩, [], [], [], false⟩,
          [⟨.pending, token⟩]⟩ := by
      rw [sendAsync, addStates, foldl_add_eq]
      rfl
    exact ⟨_, by rw [hsend, show states = ⟨c, some 0⟩ :: new.messageStates (c' :: cs) from rfl,
      List.mapIdx_cons]⟩
  refine ⟨⟨⟨states, rest, [], [], [.produced ⟨0, ⟨c, some 0⟩⟩], true⟩, [⟨.result ⟨c⟩, token⟩]⟩,
    by rw [hrest]; rfl, ?_⟩
  intro h
  -- the task is completed, and the second message has not been sent
  have hsent := h.sent (by
    rw [task, TaskStatus.isCompleted_whenAll_iff]
    intro t ht
    obtain ⟨st, hst, hsource⟩ := List.mem_filterMap.1 ht
    obtain ⟨context, -, rfl⟩ := List.mem_map.1 hst
    cases hsource
    exact nofun)
  rcases hsent with hall | hcancelled
  · obtain ⟨st, hst⟩ := hall 1 (by simp)
    simp [new, MessageSender.new] at hst
  · simp only [new, token] at hcancelled
    cases cancellable <;> cases hcancelled

/-- For every array of messages: in every run of the publisher, from every state it can reach before
the call of `SendAsync`, the task that is returned is completed only when all messages have been
sent or the token was cancelled, with the context of each message in its response, exactly when
there is at most one message. -/
theorem completes_iff_single (cancellable : Bool) (contexts : List C) :
    (∀ before after (p q : Publisher C), run step new before = some p →
      run step (p.sendAsync cancellable contexts) after = some q → Completes p q contexts) ↔
    contexts.length ≤ 1 := by
  constructor
  · intro h
    match contexts with
    | [] => simp
    | [_] => simp
    | c :: c' :: cs =>
      obtain ⟨q, hrun, hnot⟩ := not_completes_of_two cancellable c c' cs
      exact absurd (h [] _ new q rfl hrun) hnot
  · intro hlength before after p q hbefore hafter
    have hsound : Sound p :=
      run_invariant Sound (fun _ _ _ h hstep => h.transition (.of_step hstep)) .new hbefore
    match contexts with
    | [] =>
      refine ⟨fun _ => .inl (by simp), ?_⟩
      intro responses hresponses
      rw [task, TaskStatus.whenAll_eq_result_iff] at hresponses
      simpa [messageStates] using hresponses
    | [context] =>
      have hstep : p.step (.sendAsync cancellable [context]) =
          some (p.sendAsync cancellable [context]) := rfl
      have hinv := run_invariant
        (fun q => Sound q ∧ Owns q p.sender.added.length ⟨context, some p.sources.length⟩
          p.sources.length)
        (fun _ _ _ h hstep =>
          ⟨h.1.transition (.of_step hstep), h.2.transition (.of_step hstep)⟩)
        ⟨hsound.transition (.of_step hstep), Owns.sendAsync hsound cancellable context⟩ hafter
      exact hinv.2.completes hinv.1

/-- Two messages, the first of which has been sent. -/
theorem completed_after_first_of_two :
    ∃ q, run step (new.sendAsync true ["a", "b"])
        [.sender .start, .sender .take, .sender (.succeed 0)] = some q ∧
      ¬Completes new q ["a", "b"] :=
  not_completes_of_two true "a" "b" []

end Publisher

end IFramework.Publishing
