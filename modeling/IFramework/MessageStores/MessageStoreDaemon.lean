import IFramework.MessageStores.Outbox
import IFramework.Theory.Run

/-!
# The daemon of the outbox

`RemovePublishedEvent` and `RemoveSentCommand` put an id into a queue, from any thread. The loop of
the daemon takes up to ten of them, deletes the rows of the commands, then those of the events, and
saves. A relational store executes the statement of `DeleteStatement` at once; a store in memory
marks the entities and deletes them when it saves. Every call of the database can throw. What was
taken from the queue is a local of the `try`, so the `catch` goes back to the loop without it.

`kept_iff` says in which runs nothing is lost, when the ids in the statements are plain. The daemon
is not stopped in them.
-/

namespace IFramework.Outboxes

open Machine

/-- Where the loop is. `batch` is what it has taken from the queue, and `removed` are the entities
that the store has marked. -/
inductive DaemonPoint where
  | tryDequeue (batch : List ToRemoveMessage)
  | delay
  | createScope (batch : List ToRemoveMessage)
  | removeUnSentCommands (batch : List ToRemoveMessage)
  | removeUnPublishedEvents (batch removed : List ToRemoveMessage)
  | saveChanges (batch removed : List ToRemoveMessage)
  | returned
  deriving DecidableEq, Repr

/-- The entries that the loop holds. -/
def DaemonPoint.batch : DaemonPoint → List ToRemoveMessage
  | .tryDequeue batch => batch
  | .createScope batch => batch
  | .removeUnSentCommands batch => batch
  | .removeUnPublishedEvents batch _ => batch
  | .saveChanges batch _ => batch
  | _ => []

/-- `MessageStoreDaemon`, with the rows of both tables by their ids, and all that was ever
requested. -/
structure MessageStoreDaemon where
  toRemoveMessages : List ToRemoveMessage
  point : DaemonPoint
  rows : List ToRemoveMessage
  requested : List ToRemoveMessage
  deriving DecidableEq, Repr

/-- What a call of the database throws. -/
inductive DatabaseException where
  | operationCanceledException
  | threadAbortException
  | exception
  deriving DecidableEq, Repr

/-- The steps of the callers, of the handlers that store messages, and of the loop. -/
inductive DaemonAction where
  | removePublishedEvent (eventId : String)
  | removeSentCommand (commandId : String)
  /-- A message is stored, before it is sent and its id given to the daemon. -/
  | store (row : ToRemoveMessage)
  | tryDequeue
  | delayed
  /-- The next call of the database returns. -/
  | succeed
  /-- The next call of the database throws. -/
  | fail (e : DatabaseException)
  deriving DecidableEq, Repr

namespace MessageStoreDaemon

/-- The daemon has started. -/
def start (rows : List ToRemoveMessage) : MessageStoreDaemon := ⟨[], .tryDequeue [], rows, []⟩

def enqueue (s : MessageStoreDaemon) (m : ToRemoveMessage) : MessageStoreDaemon :=
  { s with toRemoveMessages := s.toRemoveMessages ++ [m], requested := s.requested ++ [m] }

/-- The entries of a batch for one of the tables. -/
def ofType (type : MessageType) (batch : List ToRemoveMessage) : List ToRemoveMessage :=
  batch.filter fun m => m.type = type

/-- What the two statements are meant to do. -/
def deleteRows (type : MessageType) (ids : List String) (rows : List ToRemoveMessage) :
    List ToRemoveMessage :=
  rows.filter fun row => ¬ (row.type = type ∧ row.messageId ∈ ids)

/-- `RemoveUnSentCommands` and `RemoveUnPublishedEvents`, with the entities that are marked: the
statement is executed, or the entities that are found are marked. -/
def remove (database : Database (List ToRemoveMessage)) (inMemoryStore : Bool)
    (s : MessageStoreDaemon) (type : MessageType) (batch : List ToRemoveMessage) :
    Option (List ToRemoveMessage × List ToRemoveMessage) :=
  if inMemoryStore then some (s.rows, (ofType type batch).filter fun m => m ∈ s.rows)
  else
    (removeUnSent database type ((ofType type batch).map ToRemoveMessage.messageId) s.rows).map
      fun rows => (rows, [])

/-- The `do` loop ends with ten entries or with an empty queue. -/
def dequeue (s : MessageStoreDaemon) (batch : List ToRemoveMessage) : MessageStoreDaemon :=
  match s.toRemoveMessages with
  | m :: rest =>
    let batch := batch ++ [m]
    { s with toRemoveMessages := rest
             point := if batch.length < 10 then .tryDequeue batch else .createScope batch }
  | [] => { s with point := if batch.length = 0 then .delay else .createScope batch }

/-- A call of the database that returns. -/
def succeed (database : Database (List ToRemoveMessage)) (inMemoryStore : Bool)
    (s : MessageStoreDaemon) : Option MessageStoreDaemon :=
  match s.point with
  | .createScope batch => some { s with point := .removeUnSentCommands batch }
  | .removeUnSentCommands batch =>
    (s.remove database inMemoryStore .command batch).map fun result =>
      { s with rows := result.1, point := .removeUnPublishedEvents batch result.2 }
  | .removeUnPublishedEvents batch removed =>
    (s.remove database inMemoryStore .event batch).map fun result =>
      { s with rows := result.1, point := .saveChanges batch (removed ++ result.2) }
  | .saveChanges _ removed =>
    some { s with rows := s.rows.filter fun row => row ∉ removed, point := .tryDequeue [] }
  | _ => none

/-- The call of the database that the loop is at can throw. A statement is executed only if there is
something to delete. -/
def canThrow (s : MessageStoreDaemon) : Bool :=
  match s.point with
  | .createScope _ => true
  | .removeUnSentCommands batch => ofType .command batch ≠ []
  | .removeUnPublishedEvents batch _ => ofType .event batch ≠ []
  | .saveChanges _ _ => true
  | _ => false

/-- The `catch` clauses. -/
def handle : DatabaseException → DaemonPoint
  | .operationCanceledException => .returned
  | .threadAbortException => .returned
  | .exception => .tryDequeue []

def step (database : Database (List ToRemoveMessage)) (inMemoryStore : Bool)
    (s : MessageStoreDaemon) : DaemonAction → Option MessageStoreDaemon
  | .removePublishedEvent eventId => some (s.enqueue ⟨eventId, .event⟩)
  | .removeSentCommand commandId => some (s.enqueue ⟨commandId, .command⟩)
  | .store row =>
    if row ∈ s.rows ∨ row ∈ s.requested then none else some { s with rows := s.rows ++ [row] }
  | .tryDequeue =>
    match s.point with
    | .tryDequeue batch => some (s.dequeue batch)
    | _ => none
  | .delayed => if s.point = .delay then some { s with point := .tryDequeue [] } else none
  | .succeed => s.succeed database inMemoryStore
  | .fail e => if s.canThrow then some { s with point := handle e } else none

/-! ## What is kept -/

/-- Each id that was ever given to the daemon is in the queue or in the batch, or its row is
deleted. -/
def Kept (s : MessageStoreDaemon) : Prop :=
  ∀ m ∈ s.requested, m ∈ s.toRemoveMessages ∨ m ∈ s.point.batch ∨ m ∉ s.rows

/-- A call of the database throws only when the rows of the batch are deleted already, or their ids
have been queued again. -/
def DropsNothing (s : MessageStoreDaemon) : DaemonAction → Prop
  | .fail _ => ∀ m ∈ s.point.batch, m ∈ s.toRemoveMessages ∨ m ∉ s.rows
  | _ => True

/-- The ids of one type in a batch can be written into a statement. -/
def PlainBatch (type : MessageType) (batch : List ToRemoveMessage) : Prop :=
  ∀ m ∈ ofType type batch, Plain m.messageId.toList

instance (type : MessageType) (batch : List ToRemoveMessage) : Decidable (PlainBatch type batch) :=
  inferInstanceAs (Decidable (∀ m ∈ ofType type batch, _))

/-- The statement that the loop is at has plain ids. -/
def PlainStatement : DaemonPoint → Prop
  | .removeUnSentCommands batch => PlainBatch .command batch
  | .removeUnPublishedEvents batch _ => PlainBatch .event batch
  | _ => True

instance : DecidablePred PlainStatement
  | .removeUnSentCommands batch => inferInstanceAs (Decidable (PlainBatch .command batch))
  | .removeUnPublishedEvents batch _ => inferInstanceAs (Decidable (PlainBatch .event batch))
  | .tryDequeue _ | .delay | .createScope _ | .saveChanges _ _ | .returned => isTrue trivial

/-- A relational store that executes a statement does so with plain ids. -/
def PlainIds (inMemoryStore : Bool) (s : MessageStoreDaemon) : DaemonAction → Prop
  | .succeed => inMemoryStore = false → PlainStatement s.point
  | _ => True

instance (inMemoryStore : Bool) (s : MessageStoreDaemon) :
    DecidablePred (s.PlainIds inMemoryStore)
  | .succeed => inferInstanceAs (Decidable (inMemoryStore = false → PlainStatement s.point))
  | .removePublishedEvent _ | .removeSentCommand _ | .store _ | .tryDequeue | .delayed | .fail _ =>
    isTrue trivial

/-- What the loop has reached with its batch. -/
def Reached (rows : List ToRemoveMessage) : DaemonPoint → Prop
  | .removeUnPublishedEvents batch removed =>
    ∀ m ∈ batch, m.type = .command → m ∉ rows ∨ m ∈ removed
  | .saveChanges batch removed => ∀ m ∈ batch, m ∉ rows ∨ m ∈ removed
  | _ => True

/-- The loop holds what was requested, and its deletes have been made. -/
structure Consistent (s : MessageStoreDaemon) : Prop where
  queued : ∀ m ∈ s.toRemoveMessages, m ∈ s.requested
  held : ∀ m ∈ s.point.batch, m ∈ s.requested
  reached : Reached s.rows s.point

variable {database : Database (List ToRemoveMessage)} {inMemoryStore : Bool}
  {s s' : MessageStoreDaemon}

theorem consistent_start (rows : List ToRemoveMessage) : Consistent (start rows) where
  queued := by simp [start]
  held := by simp [start, DaemonPoint.batch]
  reached := trivial

theorem kept_start (rows : List ToRemoveMessage) : Kept (start rows) := by
  simp [Kept, start]

/-- Rows that are none of the batch make no difference. -/
theorem Reached.mono {rows rows' : List ToRemoveMessage} {point : DaemonPoint}
    (hrows : ∀ m ∈ point.batch, m ∈ rows' → m ∈ rows) (h : Reached rows point) :
    Reached rows' point := by
  cases point with
  | removeUnPublishedEvents batch removed =>
    intro m hm htype
    exact (h m hm htype).imp_left fun hgone hmem => hgone (hrows m hm hmem)
  | saveChanges batch removed =>
    intro m hm
    exact (h m hm).imp_left fun hgone hmem => hgone (hrows m hm hmem)
  | _ => trivial

theorem mem_ofType {type : MessageType} {batch : List ToRemoveMessage} {m : ToRemoveMessage} :
    m ∈ ofType type batch ↔ m ∈ batch ∧ m.type = type := by
  simp [ofType]

/-- The rows of a batch with plain ids are deleted, or their entities are marked. -/
theorem remove_spec (hdb : database.Deletes deleteRows) {type : MessageType}
    {batch : List ToRemoveMessage} (hplain : inMemoryStore = false → PlainBatch type batch)
    {result : List ToRemoveMessage × List ToRemoveMessage}
    (h : s.remove database inMemoryStore type batch = some result) :
    (∀ m ∈ result.1, m ∈ s.rows) ∧
      ∀ m ∈ ofType type batch, m ∉ result.1 ∨ m ∈ result.2 := by
  cases inMemoryStore with
  | false =>
    have hids : ∀ id ∈ (ofType type batch).map ToRemoveMessage.messageId, Plain id.toList :=
      List.forall_mem_map.2 (hplain rfl)
    simp only [remove, Bool.false_eq_true, if_false, removeUnSent_of_plain hdb type hids,
      Option.map_some, Option.some.injEq] at h
    subst h
    split_ifs with hnil
    · refine ⟨fun m hm => hm, fun m hm => ?_⟩
      rw [List.map_eq_nil_iff.1 hnil] at hm
      cases hm
    · refine ⟨fun m hm => (List.mem_filter.1 hm).1, fun m hm => .inl fun hrow => ?_⟩
      have hkept := of_decide_eq_true (List.mem_filter.1 hrow).2
      exact hkept ⟨(mem_ofType.1 hm).2, List.mem_map_of_mem hm⟩
  | true =>
    cases h
    refine ⟨fun m hm => hm, fun m hm => ?_⟩
    by_cases hrow : m ∈ s.rows
    · exact .inr (by simp [hm, hrow])
    · exact .inl hrow

theorem mem_dequeue (s : MessageStoreDaemon) (batch : List ToRemoveMessage) {m : ToRemoveMessage} :
    m ∈ (s.dequeue batch).toRemoveMessages ∨ m ∈ (s.dequeue batch).point.batch ↔
      m ∈ s.toRemoveMessages ∨ m ∈ batch := by
  unfold dequeue
  cases hqueue : s.toRemoveMessages with
  | nil =>
    cases batch with
    | nil => simp [DaemonPoint.batch]
    | cons m' batch => simp [DaemonPoint.batch]
  | cons m' rest =>
    have hpoint : ∀ b : List ToRemoveMessage,
        (if b.length < 10 then DaemonPoint.tryDequeue b else .createScope b).batch = b := by
      intro b
      split <;> rfl
    simp only [hpoint, List.mem_append, List.mem_cons]
    tauto

theorem dequeue_spec (s : MessageStoreDaemon) (batch : List ToRemoveMessage) :
    (s.dequeue batch).rows = s.rows ∧ (s.dequeue batch).requested = s.requested ∧
      Reached (s.dequeue batch).rows (s.dequeue batch).point := by
  unfold dequeue
  split
  · refine ⟨rfl, rfl, ?_⟩
    dsimp only
    split <;> trivial
  · refine ⟨rfl, rfl, ?_⟩
    dsimp only
    split <;> trivial

/-- A call that returns keeps the batch, until everything in it is deleted. -/
theorem succeed_spec (hdb : database.Deletes deleteRows) (h : Consistent s)
    (hplain : s.PlainIds inMemoryStore .succeed)
    (hsucceed : s.succeed database inMemoryStore = some s') :
    s'.toRemoveMessages = s.toRemoveMessages ∧ s'.requested = s.requested ∧
      (∀ m ∈ s'.rows, m ∈ s.rows) ∧ (∀ m ∈ s'.point.batch, m ∈ s.point.batch) ∧
      (∀ m ∈ s.point.batch, m ∈ s'.point.batch ∨ m ∉ s'.rows) ∧ Reached s'.rows s'.point := by
  have hreached := h.reached
  have hstatement : inMemoryStore = false → PlainStatement s.point := hplain
  unfold succeed at hsucceed
  split at hsucceed
  next batch hpoint =>
    cases hsucceed
    rw [hpoint]
    exact ⟨rfl, rfl, fun m hm => hm, fun m hm => hm, fun m hm => .inl hm, trivial⟩
  next batch hpoint =>
    obtain ⟨result, hremove, rfl⟩ := Option.map_eq_some_iff.1 hsucceed
    rw [hpoint] at hstatement ⊢
    obtain ⟨hrows, hremoved⟩ := remove_spec hdb hstatement hremove
    refine ⟨rfl, rfl, hrows, fun m hm => hm, fun m hm => .inl hm, ?_⟩
    intro m hm htype
    exact hremoved m (mem_ofType.2 ⟨hm, htype⟩)
  next batch removed hpoint =>
    obtain ⟨result, hremove, rfl⟩ := Option.map_eq_some_iff.1 hsucceed
    rw [hpoint] at hstatement hreached ⊢
    obtain ⟨hrows, hremoved⟩ := remove_spec hdb hstatement hremove
    refine ⟨rfl, rfl, hrows, fun m hm => hm, fun m hm => .inl hm, ?_⟩
    intro m hm
    cases htype : m.type with
    | command =>
      refine (hreached m hm htype).imp (fun hgone hmem => hgone (hrows m hmem)) ?_
      exact List.mem_append_left _
    | event =>
      refine (hremoved m (mem_ofType.2 ⟨hm, htype⟩)).imp_right ?_
      exact List.mem_append_right _
  next batch removed hpoint =>
    cases hsucceed
    rw [hpoint] at hreached ⊢
    refine ⟨rfl, rfl, fun m hm => (List.mem_filter.1 hm).1, by simp [DaemonPoint.batch], ?_,
      trivial⟩
    intro m hm
    refine .inr fun hmem => ?_
    simp only [List.mem_filter, decide_eq_true_eq] at hmem
    exact (hreached m hm).elim (fun hgone => hgone hmem.1) hmem.2
  next => cases hsucceed

/-- What every step does that does not throw. -/
structure Moves (s s' : MessageStoreDaemon) : Prop where
  requested : ∀ m ∈ s'.requested, m ∈ s.requested ∨ m ∈ s'.toRemoveMessages
  held : ∀ m, m ∈ s'.toRemoveMessages ∨ m ∈ s'.point.batch → m ∈ s'.requested
  kept : ∀ m, m ∈ s.toRemoveMessages ∨ m ∈ s.point.batch →
    m ∈ s'.toRemoveMessages ∨ m ∈ s'.point.batch ∨ m ∉ s'.rows
  rows : ∀ m ∈ s.requested, m ∈ s'.rows → m ∈ s.rows
  reached : Reached s'.rows s'.point

theorem Consistent.mem_requested (h : Consistent s) {m : ToRemoveMessage}
    (hm : m ∈ s.toRemoveMessages ∨ m ∈ s.point.batch) : m ∈ s.requested :=
  hm.elim (h.queued m) (h.held m)

theorem Consistent.enqueue (h : Consistent s) (m : ToRemoveMessage) : Moves s (s.enqueue m) where
  requested m' hm' := (List.mem_append.1 hm').imp_right (List.mem_append_right _)
  held m' hm' := by
    rcases hm' with hm' | hm'
    · exact List.mem_append.2 ((List.mem_append.1 hm').imp_left (h.queued m'))
    · exact List.mem_append_left _ (h.held m' hm')
  kept m' hm' := hm'.imp (List.mem_append_left _) .inl
  rows _ _ hmem := hmem
  reached := h.reached

theorem Consistent.store (h : Consistent s) {row : ToRemoveMessage} (hfresh : row ∉ s.requested) :
    Moves s { s with rows := s.rows ++ [row] } := by
  have hrows : ∀ m ∈ s.requested, m ∈ s.rows ++ [row] → m ∈ s.rows := by
    intro m hm hmem
    rcases List.mem_append.1 hmem with hmem | hmem
    · exact hmem
    · cases List.mem_singleton.1 hmem
      exact absurd hm hfresh
  exact {
    requested := fun m hm => .inl hm
    held := fun m hm => h.mem_requested hm
    kept := fun m hm => hm.imp_right .inl
    rows := hrows
    reached := h.reached.mono fun m hm => hrows m (h.held m hm) }

theorem Consistent.dequeue (h : Consistent s) {batch : List ToRemoveMessage}
    (hpoint : s.point = .tryDequeue batch) : Moves s (s.dequeue batch) := by
  obtain ⟨hrows, hrequested, hreached⟩ := dequeue_spec s batch
  have hmem : ∀ m, m ∈ (s.dequeue batch).toRemoveMessages ∨ m ∈ (s.dequeue batch).point.batch ↔
      m ∈ s.toRemoveMessages ∨ m ∈ s.point.batch := by
    intro m
    rw [hpoint]
    exact mem_dequeue s batch
  exact {
    requested := fun m hm => .inl (hrequested ▸ hm)
    held := fun m hm => hrequested ▸ h.mem_requested ((hmem m).1 hm)
    kept := fun m hm => ((hmem m).2 hm).imp_right .inl
    rows := fun m _ hm => hrows ▸ hm
    reached := hreached }

theorem Consistent.delayed (h : Consistent s) (hpoint : s.point = .delay) :
    Moves s { s with point := .tryDequeue [] } where
  requested m hm := .inl hm
  held m hm := hm.elim (h.queued m) fun hm => absurd hm List.not_mem_nil
  kept m hm := by
    rw [hpoint] at hm
    exact hm.imp_right fun hm => absurd hm List.not_mem_nil
  rows _ _ hmem := hmem
  reached := trivial

theorem Consistent.succeed (hdb : database.Deletes deleteRows) (h : Consistent s)
    (hplain : s.PlainIds inMemoryStore .succeed)
    (hsucceed : s.succeed database inMemoryStore = some s') : Moves s s' := by
  obtain ⟨hqueue, hrequested, hrows, hbatch, hdeleted, hreached⟩ :=
    succeed_spec hdb h hplain hsucceed
  exact {
    requested := fun m hm => .inl (hrequested ▸ hm)
    held := fun m hm => hrequested ▸ h.mem_requested (hm.imp (hqueue ▸ ·) (hbatch m))
    kept := fun m hm => hm.imp (hqueue ▸ ·) (hdeleted m)
    rows := fun m _ hm => hrows m hm
    reached := hreached }

theorem step_cases (hdb : database.Deletes deleteRows) {a : DaemonAction} (h : Consistent s)
    (hplain : s.PlainIds inMemoryStore a) (hstep : s.step database inMemoryStore a = some s') :
    (∃ e, a = .fail e ∧ s' = { s with point := handle e }) ∨ (DropsNothing s a ∧ Moves s s') := by
  cases a with
  | removePublishedEvent eventId =>
    cases hstep
    exact .inr ⟨trivial, h.enqueue _⟩
  | removeSentCommand commandId =>
    cases hstep
    exact .inr ⟨trivial, h.enqueue _⟩
  | store row =>
    simp only [step] at hstep
    split at hstep
    next => cases hstep
    next hfresh =>
      cases hstep
      exact .inr ⟨trivial, h.store (not_or.1 hfresh).2⟩
  | tryDequeue =>
    simp only [step] at hstep
    split at hstep
    next batch hpoint =>
      cases hstep
      exact .inr ⟨trivial, h.dequeue hpoint⟩
    next => cases hstep
  | delayed =>
    simp only [step] at hstep
    split at hstep
    next hpoint =>
      cases hstep
      exact .inr ⟨trivial, h.delayed hpoint⟩
    next => cases hstep
  | succeed => exact .inr ⟨trivial, h.succeed hdb hplain hstep⟩
  | fail e =>
    simp only [step] at hstep
    split at hstep
    next =>
      cases hstep
      exact .inl ⟨e, rfl, rfl⟩
    next => cases hstep

theorem batch_handle (e : DatabaseException) : (handle e).batch = [] := by
  cases e <;> rfl

theorem Consistent.step (hdb : database.Deletes deleteRows) {a : DaemonAction} (h : Consistent s)
    (hplain : s.PlainIds inMemoryStore a) (hstep : s.step database inMemoryStore a = some s') :
    Consistent s' := by
  rcases step_cases hdb h hplain hstep with ⟨e, -, rfl⟩ | ⟨-, hmoves⟩
  · refine ⟨h.queued, ?_, ?_⟩
    · simp [batch_handle]
    · cases e <;> trivial
  · exact ⟨fun m hm => hmoves.held m (.inl hm), fun m hm => hmoves.held m (.inr hm),
      hmoves.reached⟩

/-- A step keeps what there is exactly if it drops nothing. -/
theorem kept_step_iff (hdb : database.Deletes deleteRows) {a : DaemonAction} (h : Consistent s)
    (hplain : s.PlainIds inMemoryStore a) (hkept : Kept s)
    (hstep : s.step database inMemoryStore a = some s') : Kept s' ↔ DropsNothing s a := by
  rcases step_cases hdb h hplain hstep with ⟨e, rfl, rfl⟩ | ⟨hdrops, hmoves⟩
  · constructor
    · intro hkept' m hm
      rcases hkept' m (h.held m hm) with hqueue | hbatch | hgone
      · exact .inl hqueue
      · rw [batch_handle] at hbatch
        exact absurd hbatch List.not_mem_nil
      · exact .inr hgone
    · intro hdrops m hm
      rcases hkept m hm with hqueue | hbatch | hgone
      · exact .inl hqueue
      · exact (hdrops m hbatch).imp_right .inr
      · exact .inr (.inr hgone)
  · refine iff_of_true (fun m hm => ?_) hdrops
    rcases hmoves.requested m hm with hm | hqueue
    · rcases hkept m hm with hqueue | hbatch | hgone
      · exact hmoves.kept m (.inl hqueue)
      · exact hmoves.kept m (.inr hbatch)
      · exact .inr (.inr fun hmem => hgone (hmoves.rows m hm hmem))
    · exact .inl hqueue

/-- No removal is lost in a run whose statements have plain ids, exactly if no exception drops
one. -/
theorem kept_iff (hdb : database.Deletes deleteRows) (inMemoryStore : Bool)
    (rows : List ToRemoveMessage) (as : List DaemonAction)
    (hrun : run (step database inMemoryStore) (start rows) as = some s)
    (hplain : Along (step database inMemoryStore) (PlainIds inMemoryStore) (start rows) as) :
    Throughout (step database inMemoryStore) Kept (start rows) as ↔
      Along (step database inMemoryStore) DropsNothing (start rows) as :=
  throughout_iff_along Consistent (fun _ _ _ h hP hstep => h.step hdb hP hstep)
    (fun _ _ _ h hP hkept hstep => kept_step_iff hdb h hP hkept hstep) (consistent_start rows)
    (kept_start rows) hplain hrun

/-- A published event whose row stays, though its id was given to the daemon. -/
theorem removal_lost :
    ∃ s, run (step (deleteOnly deleteRows) false) (start [⟨"e1", .event⟩])
        [.removePublishedEvent "e1", .tryDequeue, .tryDequeue, .fail .exception] = some s ∧
      ¬ Kept s := by
  refine ⟨_, rfl, ?_⟩
  intro hkept
  have hlost := hkept ⟨"e1", .event⟩ (by decide)
  revert hlost
  decide

/-- Both deletes are executed before `SaveChanges` throws. -/
def failedSave : List DaemonAction :=
  [.removePublishedEvent "e1", .removeSentCommand "c1", .tryDequeue, .tryDequeue, .tryDequeue,
    .succeed, .succeed, .succeed, .fail .exception]

theorem kept_iff_of_failed_save :
    ∃ s, run (step (deleteOnly deleteRows) false) (start [⟨"e1", .event⟩, ⟨"c2", .command⟩])
        failedSave = some s ∧ s.rows = [⟨"c2", .command⟩] ∧
      (Throughout (step (deleteOnly deleteRows) false) Kept
          (start [⟨"e1", .event⟩, ⟨"c2", .command⟩]) failedSave ↔
        Along (step (deleteOnly deleteRows) false) DropsNothing
          (start [⟨"e1", .event⟩, ⟨"c2", .command⟩]) failedSave) := by
  have hrows : (run (step (deleteOnly deleteRows) false)
      (start [⟨"e1", .event⟩, ⟨"c2", .command⟩]) failedSave).map (fun s => s.rows) =
        some [⟨"c2", .command⟩] := by decide +kernel
  have hplain : Along (step (deleteOnly deleteRows) false) (PlainIds false)
      (start [⟨"e1", .event⟩, ⟨"c2", .command⟩]) failedSave := by decide +kernel
  obtain ⟨s, hrun, hs⟩ := Option.map_eq_some_iff.1 hrows
  exact ⟨s, hrun, hs, kept_iff (deleteOnly_deletes deleteRows) false _ _ hrun hplain⟩

end MessageStoreDaemon

end IFramework.Outboxes
