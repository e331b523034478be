import IFramework.Message.MessageSender
import Mathlib.Data.List.InsertIdx

/-!
# The order of the messages of one key

The sender takes the message states in the order in which they were added and comes to the first
`ProduceAsync` of each before it takes the next. A message is overtaken by a later one of the same
topic and key only while it waits for its next attempt: when a message is produced before an earlier
one, an attempt for the earlier one had failed before. Of the Kafka client this uses that it
delivers the calls for one topic and key in the order in which they were made.
-/

namespace IFramework

/-- What the sender reads of a `MessageState`. -/
structure MessageState where
  messageId : String
  topic : Option String
  key : Option String
  deriving DecidableEq, Repr

/-- The topic and the key of the calls of `ProduceAsync` for a message. `formatMessageQueueName` is
the format that is configured for the names of queues. -/
def produceKey (formatMessageQueueName : Option String → Option String) (m : MessageState) :
    Option String × String :=
  (formatMessageQueueName m.topic, m.key.getD m.messageId)

namespace MessageSender

variable {M κ : Type} {key : M → κ}

/-- The Kafka client delivers the calls for one key in the order in which they were made: a call
succeeds only when no call for the same key is before it. -/
def DeliversInOrder (key : M → κ) (s : MessageSender M) : Action M → Prop
  | .succeed position =>
    ∀ send, s.calls[position]? = some send → ∀ earlier ∈ s.calls.take position,
      key earlier.queued.state ≠ key send.queued.state
  | _ => True

/-! ## The invariant -/

/-- What holds of the number of states that were added, the queue, the messages of the calls and of
the delayed sends, and the log. -/
structure SendOrder (key : M → κ) (count : Nat) (queue calls delayed : List (Queued M))
    (log : List (Outcome M)) : Prop where
  /-- The queue holds the states that were added last. -/
  queue_number : ∀ i q, queue[i]? = some q → q.number + queue.length = count + i
  /-- The messages of the sends were taken out of the queue. -/
  calls_taken : ∀ q ∈ calls, q.number + queue.length < count
  delayed_taken : ∀ q ∈ delayed, q.number + queue.length < count
  produced_taken : ∀ q, .produced q ∈ log → q.number + queue.length < count
  /-- A send that waits has failed, and so has one that is tried behind a later message. -/
  delayed_failed : ∀ q ∈ delayed, .failed q ∈ log
  calls_failed : calls.Pairwise fun q' q => q.number < q'.number → .failed q ∈ log
  /-- A message that is still to be produced had failed before a later one of its key was
  produced. -/
  overtaken : ∀ q, q ∈ calls ∨ q ∈ delayed → ∀ n q', log[n]? = some (.produced q') →
    q.number < q'.number → key q.state = key q'.state → .failed q ∈ log.take n
  /-- A message had failed before a later one of its key was produced before it. -/
  produced_order : ∀ m q, log[m]? = some (.produced q) → ∀ n q', n < m →
    log[n]? = some (.produced q') → q.number < q'.number → key q.state = key q'.state →
    .failed q ∈ log.take n

/-- The invariant of a sender. -/
def Ordered (key : M → κ) (s : MessageSender M) : Prop :=
  SendOrder key s.added.length s.messageStateQueue (s.calls.map Send.queued)
    (s.delayed.map Send.queued) s.log

namespace SendOrder

variable {count : Nat} {queue calls delayed : List (Queued M)} {log : List (Outcome M)}

theorem add (h : SendOrder key count queue calls delayed log) (state : M) :
    SendOrder key (count + 1) (queue ++ [⟨count, state⟩]) calls delayed log where
  queue_number i q hq := by
    rcases getElem?_concat hq with ⟨_, hold⟩ | ⟨rfl, rfl⟩
    · have := h.queue_number i q hold
      simp only [List.length_append, List.length_singleton]
      omega
    · simp only [List.length_append, List.length_singleton]
      omega
  calls_taken q hq := by
    have := h.calls_taken q hq
    simp only [List.length_append, List.length_singleton]
    omega
  delayed_taken q hq := by
    have := h.delayed_taken q hq
    simp only [List.length_append, List.length_singleton]
    omega
  produced_taken q hq := by
    have := h.produced_taken q hq
    simp only [List.length_append, List.length_singleton]
    omega
  delayed_failed := h.delayed_failed
  calls_failed := h.calls_failed
  overtaken := h.overtaken
  produced_order := h.produced_order

theorem takeThrows {queued : Queued M} {rest : List (Queued M)}
    (h : SendOrder key count (queued :: rest) calls delayed log) :
    SendOrder key count rest calls delayed log where
  queue_number i q hq := by
    have := h.queue_number (i + 1) q (by simpa using hq)
    simp only [List.length_cons] at this
    omega
  calls_taken q hq := by
    have := h.calls_taken q hq
    simp only [List.length_cons] at this
    omega
  delayed_taken q hq := by
    have := h.delayed_taken q hq
    simp only [List.length_cons] at this
    omega
  produced_taken q hq := by
    have := h.produced_taken q hq
    simp only [List.length_cons] at this
    omega
  delayed_failed := h.delayed_failed
  calls_failed := h.calls_failed
  overtaken := h.overtaken
  produced_order := h.produced_order

/-- A call that is made behind the others, for a message that is later than all that were produced
or that has failed already. -/
theorem call {queued : Queued M} (h : SendOrder key count queue calls delayed log)
    (htaken : queued.number + queue.length < count)
    (hcalls : ∀ q ∈ calls, queued.number < q.number → .failed queued ∈ log)
    (hovertaken : ∀ n q', log[n]? = some (.produced q') → queued.number < q'.number →
      key queued.state = key q'.state → .failed queued ∈ log.take n) :
    SendOrder key count queue (calls ++ [queued]) delayed log where
  queue_number := h.queue_number
  calls_taken q hq := by
    rcases List.mem_append.1 hq with hold | hnew
    · exact h.calls_taken q hold
    · cases List.mem_singleton.1 hnew
      exact htaken
  delayed_taken := h.delayed_taken
  produced_taken := h.produced_taken
  delayed_failed := h.delayed_failed
  calls_failed := by
    refine List.pairwise_append.2 ⟨h.calls_failed, List.pairwise_singleton _ _, ?_⟩
    intro q hq q' hq' hlt
    cases List.mem_singleton.1 hq'
    exact hcalls q hq hlt
  overtaken q hq := by
    rcases hq with hq | hq
    · rcases List.mem_append.1 hq with hold | hnew
      · exact h.overtaken q (.inl hold)
      · cases List.mem_singleton.1 hnew
        exact hovertaken
    · exact h.overtaken q (.inr hq)
  produced_order := h.produced_order

/-- The first attempt for a message: all that were sent before have smaller numbers. -/
theorem take {queued : Queued M} {rest : List (Queued M)}
    (h : SendOrder key count (queued :: rest) calls delayed log) :
    SendOrder key count rest (calls ++ [queued]) delayed log := by
  have hnumber := h.queue_number 0 queued rfl
  simp only [List.length_cons] at hnumber
  refine h.takeThrows.call (by omega) ?_ ?_
  · intro q hq hlt
    have := h.calls_taken q hq
    simp only [List.length_cons] at this
    omega
  · intro n q' hn hlt _
    have := h.produced_taken q' (List.mem_of_getElem? hn)
    simp only [List.length_cons] at this
    omega

theorem sublist {calls' delayed' : List (Queued M)}
    (h : SendOrder key count queue calls delayed log) (hcalls : calls'.Sublist calls)
    (hdelayed : delayed'.Sublist delayed) : SendOrder key count queue calls' delayed' log where
  queue_number := h.queue_number
  calls_taken q hq := h.calls_taken q (hcalls.subset hq)
  delayed_taken q hq := h.delayed_taken q (hdelayed.subset hq)
  produced_taken := h.produced_taken
  delayed_failed q hq := h.delayed_failed q (hdelayed.subset hq)
  calls_failed := h.calls_failed.sublist hcalls
  overtaken q hq := h.overtaken q (hq.imp (fun h => hcalls.subset h) fun h => hdelayed.subset h)
  produced_order := h.produced_order

/-- The entries of a longer log that have a given earlier entry. -/
theorem mem_take_concat {x y : Outcome M} {n : Nat} (hn : n ≤ log.length) (h : x ∈ log.take n) :
    x ∈ (log ++ [y]).take n := by
  rwa [List.take_append_of_le_length hn]

theorem log_failed (h : SendOrder key count queue calls delayed log) (queued : Queued M) :
    SendOrder key count queue calls delayed (log ++ [.failed queued]) where
  queue_number := h.queue_number
  calls_taken := h.calls_taken
  delayed_taken := h.delayed_taken
  produced_taken q hq := h.produced_taken q (by simpa using hq)
  delayed_failed q hq := List.mem_append_left _ (h.delayed_failed q hq)
  calls_failed := h.calls_failed.imp fun hfailed hlt => List.mem_append_left _ (hfailed hlt)
  overtaken q hq n q' hn hlt hkey := by
    rcases getElem?_concat hn with ⟨hlen, hold⟩ | ⟨_, hnew⟩
    · exact mem_take_concat (Nat.le_of_lt hlen) (h.overtaken q hq n q' hold hlt hkey)
    · cases hnew
  produced_order m q hm n q' hnm hn hlt hkey := by
    rcases getElem?_concat hn with ⟨hlen, hold⟩ | ⟨_, hnew⟩
    · rcases getElem?_concat hm with ⟨_, holdm⟩ | ⟨_, hnewm⟩
      · have hfailed := h.produced_order m q holdm n q' hnm hold hlt hkey
        exact mem_take_concat (Nat.le_of_lt hlen) hfailed
      · cases hnewm
    · cases hnew

theorem delay {queued : Queued M} (h : SendOrder key count queue calls delayed log)
    (hcall : queued ∈ calls) (hfailed : .failed queued ∈ log) :
    SendOrder key count queue calls (delayed ++ [queued]) log where
  queue_number := h.queue_number
  calls_taken := h.calls_taken
  delayed_taken q hq := by
    rcases List.mem_append.1 hq with hold | hnew
    · exact h.delayed_taken q hold
    · cases List.mem_singleton.1 hnew
      exact h.calls_taken queued hcall
  produced_taken := h.produced_taken
  delayed_failed q hq := by
    rcases List.mem_append.1 hq with hold | hnew
    · exact h.delayed_failed q hold
    · cases List.mem_singleton.1 hnew
      exact hfailed
  calls_failed := h.calls_failed
  overtaken q hq := by
    rcases hq with hq | hq
    · exact h.overtaken q (.inl hq)
    · rcases List.mem_append.1 hq with hold | hnew
      · exact h.overtaken q (.inr hold)
      · cases List.mem_singleton.1 hnew
        exact h.overtaken queued (.inl hcall)
  produced_order := h.produced_order

/-- A call that fails: the send waits for its next attempt. -/
theorem fail {queued : Queued M} {position : Nat}
    (h : SendOrder key count queue calls delayed log) (hcall : calls[position]? = some queued) :
    SendOrder key count queue (calls.eraseIdx position) (delayed ++ [queued])
      (log ++ [.failed queued]) :=
  ((h.log_failed queued).delay (List.mem_of_getElem? hcall) (by simp)).sublist
    (List.eraseIdx_sublist _ _) (List.Sublist.refl _)

theorem retry {queued : Queued M} {position : Nat}
    (h : SendOrder key count queue calls delayed log) (hsend : delayed[position]? = some queued) :
    SendOrder key count queue (calls ++ [queued]) (delayed.eraseIdx position) log := by
  have hmem := List.mem_of_getElem? hsend
  have hfailed := h.delayed_failed queued hmem
  exact (h.call (h.delayed_taken queued hmem) (fun _ _ _ => hfailed)
    (h.overtaken queued (.inr hmem))).sublist (List.Sublist.refl _)
    (List.eraseIdx_sublist _ _)

/-- When a call succeeds before others of its key, these are for later messages or have failed
before. -/
theorem failed_of_overtaken {queued q : Queued M} {position : Nat}
    (h : SendOrder key count queue calls delayed log) (hcall : calls[position]? = some queued)
    (horder : ∀ earlier ∈ calls.take position, key earlier.state ≠ key queued.state)
    (hq : q ∈ calls.eraseIdx position ∨ q ∈ delayed) (hlt : q.number < queued.number)
    (hkey : key q.state = key queued.state) : .failed q ∈ log := by
  rcases hq with hq | hq
  · obtain ⟨i, hne, hi⟩ := List.mem_eraseIdx_iff_getElem?.1 hq
    rcases Nat.lt_or_gt_of_ne hne with hlt' | hgt
    · have hearlier : q ∈ calls.take position :=
        List.mem_of_getElem? (by rwa [List.getElem?_take_of_lt hlt'])
      exact absurd hkey (horder q hearlier)
    · obtain ⟨hp, hpos⟩ := List.getElem?_eq_some_iff.1 hcall
      obtain ⟨hi', hpos'⟩ := List.getElem?_eq_some_iff.1 hi
      have hfailed := List.pairwise_iff_getElem.1 h.calls_failed position i hp hi' hgt
      rw [hpos, hpos'] at hfailed
      exact hfailed hlt
  · exact h.delayed_failed q hq

/-- A call that succeeds, when no call for the same key was made before it and did not end. -/
theorem succeed {queued : Queued M} {position : Nat}
    (h : SendOrder key count queue calls delayed log) (hcall : calls[position]? = some queued)
    (horder : ∀ earlier ∈ calls.take position, key earlier.state ≠ key queued.state) :
    SendOrder key count queue (calls.eraseIdx position) delayed (log ++ [.produced queued]) where
  queue_number := h.queue_number
  calls_taken q hq := h.calls_taken q (List.eraseIdx_subset hq)
  delayed_taken := h.delayed_taken
  produced_taken q hq := by
    rcases List.mem_append.1 hq with hold | hnew
    · exact h.produced_taken q hold
    · cases List.mem_singleton.1 hnew
      exact h.calls_taken queued (List.mem_of_getElem? hcall)
  delayed_failed q hq := List.mem_append_left _ (h.delayed_failed q hq)
  calls_failed :=
    (h.calls_failed.sublist (List.eraseIdx_sublist _ _)).imp fun hfailed hlt =>
      List.mem_append_left _ (hfailed hlt)
  overtaken q hq n q' hn hlt hkey := by
    rcases getElem?_concat hn with ⟨hlen, hold⟩ | ⟨rfl, hnew⟩
    · have hq' : q ∈ calls ∨ q ∈ delayed := hq.imp_left fun hq => List.eraseIdx_subset hq
      exact mem_take_concat (Nat.le_of_lt hlen) (h.overtaken q hq' n q' hold hlt hkey)
    · cases hnew
      have hfailed := h.failed_of_overtaken hcall horder hq hlt hkey
      exact mem_take_concat (Nat.le_refl _) (by rwa [List.take_length])
  produced_order m q hm n q' hnm hn hlt hkey := by
    have hlen : n < log.length := by
      rcases getElem?_concat hm with ⟨hlenm, _⟩ | ⟨rfl, _⟩ <;> omega
    have hold : log[n]? = some (.produced q') := by rwa [List.getElem?_append_left hlen] at hn
    rcases getElem?_concat hm with ⟨_, holdm⟩ | ⟨_, hnewm⟩
    · exact mem_take_concat (Nat.le_of_lt hlen) (h.produced_order m q holdm n q' hnm hold hlt hkey)
    · cases hnewm
      exact mem_take_concat (Nat.le_of_lt hlen)
        (h.overtaken queued (.inl (List.mem_of_getElem? hcall)) n q' hold hlt hkey)

end SendOrder

/-! ## Runs -/

theorem Ordered.new : Ordered key (new : MessageSender M) where
  queue_number := by simp [MessageSender.new]
  calls_taken := by simp [MessageSender.new]
  delayed_taken := by simp [MessageSender.new]
  produced_taken := by simp [MessageSender.new]
  delayed_failed := by simp [MessageSender.new]
  calls_failed := by simp [MessageSender.new]
  overtaken := by simp [MessageSender.new]
  produced_order := by simp [MessageSender.new]

theorem map_queued_cancel (sends : List (Send M)) :
    (sends.map Send.cancel).map Send.queued = sends.map Send.queued := by
  rw [List.map_map]
  rfl

/-- Every step keeps the invariant, provided the client delivers in order. -/
theorem Ordered.step {s s' : MessageSender M} {a : Action M} (h : Ordered key s)
    (horder : DeliversInOrder key s a) (hstep : step s a = some s') : Ordered key s' := by
  cases Transition.of_step hstep with
  | add state => simpa [Ordered, MessageSender.add] using SendOrder.add h state
  | start => exact h
  | stop => simpa only [Ordered, map_queued_cancel] using h
  | take _ hqueue =>
    unfold Ordered at h
    rw [hqueue] at h
    simpa [Ordered] using h.take
  | takeThrows _ hqueue =>
    unfold Ordered at h
    rw [hqueue] at h
    exact h.takeThrows
  | @succeed position send hsend =>
    have hcall : (s.calls.map Send.queued)[position]? = some send.queued := by simp [hsend]
    have horder' : ∀ earlier ∈ (s.calls.map Send.queued).take position,
        key earlier.state ≠ key send.queued.state := by
      intro earlier hearlier
      rw [← List.map_take] at hearlier
      obtain ⟨send', hsend', rfl⟩ := List.mem_map.1 hearlier
      exact horder send hsend send' hsend'
    simpa [Ordered, List.eraseIdx_map] using SendOrder.succeed h hcall horder'
  | @fail position send hsend =>
    have hcall : (s.calls.map Send.queued)[position]? = some send.queued := by simp [hsend]
    simpa [Ordered, List.eraseIdx_map] using SendOrder.fail h hcall
  | @retry position send hsend _ =>
    have hdelayed : (s.delayed.map Send.queued)[position]? = some send.queued := by simp [hsend]
    simpa [Ordered, List.eraseIdx_map] using SendOrder.retry h hdelayed
  | drop =>
    exact SendOrder.sublist h (List.Sublist.refl _) ((List.eraseIdx_sublist _ _).map _)

/-- For every sequence of added states, every pattern of failures and every interleaving of the
sends: when a message is produced after a later one of the same topic and key, one of its attempts
had failed before the later one was produced. -/
theorem overtaken_only_after_failure (formatMessageQueueName : Option String → Option String)
    {as : List (Action MessageState)} {s : MessageSender MessageState}
    (hrun : Machine.run step new as = some s)
    (horder : Machine.Along step (DeliversInOrder (produceKey formatMessageQueueName)) new as)
    {m n : Nat} {q q' : Queued MessageState} (hq : s.log[m]? = some (.produced q))
    (hq' : s.log[n]? = some (.produced q')) (hnm : n < m) (hlt : q.number < q'.number)
    (hkey : produceKey formatMessageQueueName q.state =
      produceKey formatMessageQueueName q'.state) :
    .failed q ∈ s.log.take n := by
  have hordered : Ordered (produceKey formatMessageQueueName) s :=
    horder.invariant (Ordered _) (fun _ _ _ h hP hs => h.step hP hs) Ordered.new hrun
  exact hordered.produced_order m q hq n q' hnm hq' hlt hkey

/-- Two states of one topic and key. -/
def firstState : MessageState := ⟨"m1", some "orders", some "o1"⟩

def secondState : MessageState := ⟨"m2", some "orders", some "o1"⟩

/-- The first attempt for the first message fails; while it waits, the second one is produced. -/
def overtakenRun : List (Action MessageState) :=
  [.add firstState, .add secondState, .start, .take, .take, .fail 0, .succeed 0, .wake 0,
    .succeed 0]

/-- The sender after the run. -/
def overtakenSender : MessageSender MessageState where
  added := [firstState, secondState]
  messageStateQueue := []
  calls := []
  delayed := []
  log := [.failed ⟨0, firstState⟩, .produced ⟨1, secondState⟩, .produced ⟨0, firstState⟩]
  running := true

theorem run_overtakenRun : Machine.run step new overtakenRun = some overtakenSender := by decide

instance : ∀ (s : MessageSender MessageState) (a : Action MessageState),
    Decidable (DeliversInOrder (produceKey id) s a)
  | s, .succeed position =>
    inferInstanceAs (Decidable (∀ send, s.calls[position]? = some send →
      ∀ earlier ∈ s.calls.take position,
        produceKey id earlier.queued.state ≠ produceKey id send.queued.state))
  | _, .add _ | _, .start | _, .stop | _, .take | _, .takeThrows | _, .fail _ | _, .wake _ =>
    isTrue trivial

theorem overtakenRun_deliversInOrder :
    Machine.Along step (DeliversInOrder (produceKey id)) new overtakenRun := by decide

theorem overtaken_only_after_failure_of_retry :
    .failed ⟨0, firstState⟩ ∈ overtakenSender.log.take 1 :=
  overtaken_only_after_failure id run_overtakenRun overtakenRun_deliversInOrder
    (show overtakenSender.log[2]? = some (.produced ⟨0, firstState⟩) from rfl)
    (show overtakenSender.log[1]? = some (.produced ⟨1, secondState⟩) from rfl) (by decide)
    (by decide) rfl

/-- The second message is produced before the first one, with the same topic and key, although the
client delivers in order. -/
theorem produced_out_of_order :
    ∃ as s, Machine.run step new as = some s ∧
      Machine.Along step (DeliversInOrder (produceKey id)) new as ∧
      s.added = [firstState, secondState] ∧ produceKey id firstState = produceKey id secondState ∧
      s.log[1]? = some (.produced ⟨1, secondState⟩) ∧
      s.log[2]? = some (.produced ⟨0, firstState⟩) :=
  ⟨overtakenRun, overtakenSender, run_overtakenRun, overtakenRun_deliversInOrder, rfl, rfl, rfl,
    rfl⟩

end MessageSender

end IFramework
