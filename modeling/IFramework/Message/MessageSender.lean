import IFramework.Theory.Run
import Mathlib.Data.List.Basic

/-!
# The message sender

`MessageSender` is the base of `MessagePublisher` and `CommandBus`. `SendAsync` adds message states
to `MessageStateQueue`; the task that `Start` creates takes them one after the other and calls
`SendMessageStateAsync` without awaiting it. Up to its first `ProduceAsync` the call runs on the
thread of that task. When `ProduceAsync` fails, `BaseKafkaProducer.SendAsync` waits for a time that
grows with the number of attempts and tries again, while the task goes on with the later messages.
`Stop` cancels the token: no message is taken any more, and a send that fails or waits ends with an
exception.

A step is what one thread does between two awaits. Each message state is numbered when it is added.
`log` records how the attempts end, in the order in which they do.
-/

namespace IFramework

/-- A message state in the sender and the number of states that were added before it. -/
structure Queued (M : Type) where
  number : Nat
  state : M
  deriving DecidableEq, Repr

/-- A call of `SendMessageStateAsync`, and whether its token is cancelled. -/
structure Send (M : Type) where
  queued : Queued M
  cancelled : Bool
  deriving DecidableEq, Repr

/-- How an attempt ends: `ProduceAsync` throws, or the message is in the log of the broker. -/
inductive Outcome (M : Type) where
  | failed (queued : Queued M)
  | produced (queued : Queued M)
  deriving DecidableEq, Repr

/-- A `MessageSender`: the states that were added, those in `MessageStateQueue`, the calls of
`ProduceAsync` that did not end yet in the order in which they were made, the sends that wait in
`Task.Delay`, the outcomes so far, and whether the task is running. -/
structure MessageSender (M : Type) where
  added : List M
  messageStateQueue : List (Queued M)
  calls : List (Send M)
  delayed : List (Send M)
  log : List (Outcome M)
  running : Bool
  deriving DecidableEq, Repr

namespace MessageSender

/-- The actions of the parties: a caller of `SendAsync`, `Start` and `Stop`, the task of the sender,
the Kafka client, and the timer. -/
inductive Action (M : Type) where
  /-- A state is added to the queue. -/
  | add (state : M)
  | start
  | stop
  /-- The task takes a state, and the send comes to its first `ProduceAsync`. -/
  | take
  /-- The task takes a state, and the send throws before it comes to `ProduceAsync`; nobody sees the
  exception. -/
  | takeThrows
  /-- The call at the position succeeds. -/
  | succeed (position : Nat)
  /-- The call at the position fails. -/
  | fail (position : Nat)
  /-- The delay of the send at the position ends. -/
  | wake (position : Nat)
  deriving DecidableEq, Repr

section Model

variable {M : Type}

/-- `new MessageSender()`. -/
def new : MessageSender M := ⟨[], [], [], [], [], false⟩

/-- `MessageStateQueue.Add`. -/
def add (s : MessageSender M) (state : M) : MessageSender M :=
  { s with added := s.added ++ [state],
           messageStateQueue := s.messageStateQueue ++ [⟨s.added.length, state⟩] }

/-- `Cancel` on the source of the token of a send. -/
def Send.cancel (send : Send M) : Send M := { send with cancelled := true }

/-- One step of the sender. -/
def step (s : MessageSender M) : Action M → Option (MessageSender M)
  | .add state => some (s.add state)
  | .start => if s.running then none else some { s with running := true }
  | .stop =>
    if s.running then
      some { s with running := false, calls := s.calls.map Send.cancel,
                    delayed := s.delayed.map Send.cancel }
    else none
  | .take =>
    match s.running, s.messageStateQueue with
    | true, queued :: rest =>
      some { s with messageStateQueue := rest, calls := s.calls ++ [⟨queued, false⟩] }
    | _, _ => none
  | .takeThrows =>
    match s.running, s.messageStateQueue with
    | true, _ :: rest => some { s with messageStateQueue := rest }
    | _, _ => none
  | .succeed position =>
    s.calls[position]?.map fun send =>
      { s with calls := s.calls.eraseIdx position, log := s.log ++ [.produced send.queued] }
  | .fail position =>
    s.calls[position]?.map fun send =>
      { s with calls := s.calls.eraseIdx position, delayed := s.delayed ++ [send],
               log := s.log ++ [.failed send.queued] }
  | .wake position =>
    -- `Task.Delay` with a cancelled token throws; otherwise the loop makes the next attempt.
    s.delayed[position]?.map fun send =>
      { s with delayed := s.delayed.eraseIdx position,
               calls := if send.cancelled then s.calls else s.calls ++ [send] }

end Model

/-! ## Transitions -/

section Transition

variable {M : Type}

/-- What a step does, one constructor for each effect on the queue, the calls and the delays. -/
inductive Transition (s : MessageSender M) : Action M → MessageSender M → Prop
  | add (state : M) : Transition s (.add state) (s.add state)
  | start : s.running = false → Transition s .start { s with running := true }
  | stop : s.running = true →
      Transition s .stop { s with running := false, calls := s.calls.map Send.cancel,
                                  delayed := s.delayed.map Send.cancel }
  | take {queued : Queued M} {rest : List (Queued M)} : s.running = true →
      s.messageStateQueue = queued :: rest →
      Transition s .take
        { s with messageStateQueue := rest, calls := s.calls ++ [⟨queued, false⟩] }
  | takeThrows {queued : Queued M} {rest : List (Queued M)} : s.running = true →
      s.messageStateQueue = queued :: rest →
      Transition s .takeThrows { s with messageStateQueue := rest }
  | succeed {position : Nat} {send : Send M} : s.calls[position]? = some send →
      Transition s (.succeed position)
        { s with calls := s.calls.eraseIdx position, log := s.log ++ [.produced send.queued] }
  | fail {position : Nat} {send : Send M} : s.calls[position]? = some send →
      Transition s (.fail position)
        { s with calls := s.calls.eraseIdx position, delayed := s.delayed ++ [send],
                 log := s.log ++ [.failed send.queued] }
  | retry {position : Nat} {send : Send M} : s.delayed[position]? = some send →
      send.cancelled = false →
      Transition s (.wake position)
        { s with delayed := s.delayed.eraseIdx position, calls := s.calls ++ [send] }
  | drop {position : Nat} {send : Send M} : s.delayed[position]? = some send →
      send.cancelled = true →
      Transition s (.wake position) { s with delayed := s.delayed.eraseIdx position }

theorem Transition.of_step {s s' : MessageSender M} {a : Action M} (h : step s a = some s') :
    Transition s a s' := by
  cases a with
  | add state =>
    cases h
    exact .add state
  | start =>
    simp only [step] at h
    split at h
    · cases h
    · cases h
      exact .start (by simpa using ‹¬s.running = true›)
  | stop =>
    simp only [step] at h
    split at h
    · cases h
      exact .stop ‹_›
    · cases h
  | take =>
    simp only [step] at h
    split at h
    · cases h
      exact .take ‹_› ‹_›
    · cases h
  | takeThrows =>
    simp only [step] at h
    split at h
    · cases h
      exact .takeThrows ‹_› ‹_›
    · cases h
  | succeed position =>
    obtain ⟨send, hsend, rfl⟩ := Option.map_eq_some_iff.1 h
    exact .succeed hsend
  | fail position =>
    obtain ⟨send, hsend, rfl⟩ := Option.map_eq_some_iff.1 h
    exact .fail hsend
  | wake position =>
    obtain ⟨send, hsend, rfl⟩ := Option.map_eq_some_iff.1 h
    cases hcancelled : send.cancelled with
    | true => exact .drop hsend hcancelled
    | false => exact .retry hsend hcancelled

end Transition

/-! ## What a sender holds -/

/-- An entry of a longer list is an old one, or the new one at the end. -/
theorem getElem?_concat {α : Type} {l : List α} {x y : α} {n : Nat}
    (h : (l ++ [x])[n]? = some y) : n < l.length ∧ l[n]? = some y ∨ n = l.length ∧ x = y := by
  rcases Nat.lt_trichotomy n l.length with hlt | heq | hgt
  · exact .inl ⟨hlt, by rwa [List.getElem?_append_left hlt] at h⟩
  · subst heq
    exact .inr ⟨rfl, by simpa using h⟩
  · have hlen : (l ++ [x]).length ≤ n := by
      simp only [List.length_append, List.length_singleton]
      omega
    simp [List.getElem?_eq_none hlen] at h

section Holds

variable {M : Type} {p : M → Prop}

/-- Every state in the sender meets `p`. -/
structure Holds (p : M → Prop) (s : MessageSender M) : Prop where
  added : ∀ m ∈ s.added, p m
  queue : ∀ q ∈ s.messageStateQueue, p q.state
  calls : ∀ send ∈ s.calls, p send.queued.state
  delayed : ∀ send ∈ s.delayed, p send.queued.state

namespace Holds

theorem new : Holds p (new : MessageSender M) := by
  constructor <;> simp [MessageSender.new]

theorem add {s : MessageSender M} (h : Holds p s) {m : M} (hm : p m) : Holds p (s.add m) where
  added := by simpa [MessageSender.add, or_imp, forall_and] using ⟨h.added, hm⟩
  queue := by simpa [MessageSender.add, or_imp, forall_and] using ⟨h.queue, hm⟩
  calls := h.calls
  delayed := h.delayed

theorem foldl_add {ms : List M} : ∀ {s : MessageSender M}, Holds p s → (∀ m ∈ ms, p m) →
    Holds p (ms.foldl MessageSender.add s) := by
  induction ms with
  | nil =>
    intro s h _
    exact h
  | cons m ms ih =>
    intro s h hms
    exact ih (h.add (hms m List.mem_cons_self)) fun m' hm' => hms m' (List.mem_cons_of_mem m hm')

theorem step {s s' : MessageSender M} {a : Action M} (h : Holds p s)
    (hadd : ∀ m, a = .add m → p m) (hstep : step s a = some s') : Holds p s' := by
  cases Transition.of_step hstep with
  | add state => exact h.add (hadd state rfl)
  | start => exact ⟨h.added, h.queue, h.calls, h.delayed⟩
  | stop =>
    refine ⟨h.added, h.queue, ?_, ?_⟩
    · simpa [Send.cancel] using h.calls
    · simpa [Send.cancel] using h.delayed
  | @take queued rest _ hqueue =>
    have hq := h.queue
    rw [hqueue] at hq
    refine ⟨h.added, fun q hmem => hq q (List.mem_cons_of_mem _ hmem), ?_, h.delayed⟩
    simpa [or_imp, forall_and] using ⟨h.calls, hq queued List.mem_cons_self⟩
  | takeThrows _ hqueue =>
    have hq := h.queue
    rw [hqueue] at hq
    exact ⟨h.added, fun q hmem => hq q (List.mem_cons_of_mem _ hmem), h.calls, h.delayed⟩
  | succeed =>
    exact ⟨h.added, h.queue, fun send hs => h.calls send (List.eraseIdx_subset hs), h.delayed⟩
  | @fail position send hsend =>
    refine ⟨h.added, h.queue, fun send hs => h.calls send (List.eraseIdx_subset hs), ?_⟩
    simpa [or_imp, forall_and] using ⟨h.delayed, h.calls send (List.mem_of_getElem? hsend)⟩
  | @retry position send hsend _ =>
    refine ⟨h.added, h.queue, ?_, fun send hs => h.delayed send (List.eraseIdx_subset hs)⟩
    simpa [or_imp, forall_and] using ⟨h.calls, h.delayed send (List.mem_of_getElem? hsend)⟩
  | drop =>
    exact ⟨h.added, h.queue, h.calls, fun send hs => h.delayed send (List.eraseIdx_subset hs)⟩

end Holds

@[simp] theorem foldl_add_added (ms : List M) (s : MessageSender M) :
    (ms.foldl MessageSender.add s).added = s.added ++ ms := by
  induction ms generalizing s with
  | nil => simp
  | cons m ms ih => simp [ih, MessageSender.add]

end Holds

end MessageSender

end IFramework
