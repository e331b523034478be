import IFramework.MessageStores.Outbox
import IFramework.Theory.Run

/-!
# What a restart recovers

A row is deleted by the daemon only when its message has been produced, and by the recovery of
`MessagePublisher.Start` when it does not hold an `IMessage`. So along a run no unsent row of
`UnPublishedEvents` is lost as long as the unsent rows that each `Start` finds hold an `IMessage`;
replies that are plain values, exceptions or null are lost. `UnSentCommands` has no recovery: a
command that is unsent when the process crashes is never put into a queue again.

The ids of the messages are written into the statements of the daemon as they are, so a row can also
go away because of the id of another message. `PlainIds` says of a step that it executes no
statement with such an id.

`Channel.Step` says once what a step of the outbox can do to one table and its sender; the
invariants of both tables are proved from it.
-/

namespace IFramework.Outboxes

/-! ## Steps of one table -/

namespace Channel

variable {O : Type} {c c' : Channel O} {ids ids' : List String}

/-- What a step does to one table with its sender, and to the ids that the daemon is to remove from
the table; all but the recovery. -/
inductive Step (c : Channel O) (ids : List String) : Channel O → List String → Prop
  | skip {ids' : List String} : ids' ⊆ ids → Step c ids c ids'
  | store {contexts : List (MessageContext O)} : c.CanStore contexts →
      Step c ids (c.store contexts) ids
  | submit {position : Nat} {c' : Channel O} : c.submit position = some c' → Step c ids c' ids
  | send {a : MessageSender.Action (MessageContext O)} {result : Channel O × Option String} :
      c.send a = some result → Step c ids result.1 (ids ++ result.2.toList)
  | remove {removed ids' : List String} : removed ⊆ ids → ids' ⊆ ids →
      Step c ids (c.remove removed) ids'
  | start {sender : MessageSender (MessageContext O)} : c.sender.step .start = some sender →
      Step c ids { c with sender := sender } ids
  | crash : Step c ids c.crash []

/-- A step of the sender leaves the table alone. It completes a message only when it has been
produced, and adds nothing to the queue. -/
theorem send_spec {a : MessageSender.Action (MessageContext O)}
    {result : Channel O × Option String} (h : c.send a = some result) :
    ∃ sender, c.sender.step a = some sender ∧ (∀ m, a ≠ .add m) ∧
      (result = ({ c with sender := sender }, none) ∨
        ∃ send ∈ c.sender.calls, result =
          ({ c with sender := sender, sent := c.sent ++ [send.queued.state.messageId] },
            some send.queued.state.messageId)) := by
  cases a with
  | add _ => cases h
  | start => cases h
  | succeed position =>
    simp only [Channel.send] at h
    split at h
    · rename_i send sender hcall hstep
      cases h
      exact ⟨sender, hstep, by simp, .inr ⟨send, List.mem_of_getElem? hcall, rfl⟩⟩
    · cases h
  | stop =>
    obtain ⟨sender, hstep, rfl⟩ := Option.map_eq_some_iff.1 h
    exact ⟨sender, hstep, by simp, .inl rfl⟩
  | take =>
    obtain ⟨sender, hstep, rfl⟩ := Option.map_eq_some_iff.1 h
    exact ⟨sender, hstep, by simp, .inl rfl⟩
  | takeThrows =>
    obtain ⟨sender, hstep, rfl⟩ := Option.map_eq_some_iff.1 h
    exact ⟨sender, hstep, by simp, .inl rfl⟩
  | fail position =>
    obtain ⟨sender, hstep, rfl⟩ := Option.map_eq_some_iff.1 h
    exact ⟨sender, hstep, by simp, .inl rfl⟩
  | wake position =>
    obtain ⟨sender, hstep, rfl⟩ := Option.map_eq_some_iff.1 h
    exact ⟨sender, hstep, by simp, .inl rfl⟩

/-! ## Rows that are not deleted before they are sent -/

/-- Every row that was stored is in the table or its message was produced, and so was every message
whose row is to be removed. -/
structure Kept (c : Channel O) (ids : List String) : Prop where
  rows : ∀ row ∈ c.stored, row ∈ c.rows ∨ row.id ∈ c.sent
  ids : ∀ id ∈ ids, id ∈ c.sent

theorem Kept.new : Kept (new : Channel O) [] := ⟨by simp [Channel.new], by simp⟩

theorem Kept.step (h : c.Kept ids) (hstep : Step c ids c' ids') : c'.Kept ids' := by
  cases hstep with
  | skip hsub => exact ⟨h.rows, fun id hid => h.ids id (hsub hid)⟩
  | @store contexts _ =>
    refine ⟨fun row hrow => ?_, h.ids⟩
    rcases List.mem_append.1 hrow with hold | hnew
    · exact (h.rows row hold).imp_left (List.mem_append_left _)
    · exact .inl (List.mem_append_right _ hnew)
  | submit hsubmit =>
    obtain ⟨contexts, _, rfl⟩ := Option.map_eq_some_iff.1 hsubmit
    exact ⟨h.rows, h.ids⟩
  | send hsend =>
    obtain ⟨sender, _, _, rfl | ⟨send, _, rfl⟩⟩ := send_spec hsend
    · exact ⟨h.rows, by simpa using h.ids⟩
    · refine ⟨fun row hrow => (h.rows row hrow).imp_right (List.mem_append_left _), ?_⟩
      intro id hid
      rcases List.mem_append.1 hid with hold | hnew
      · exact List.mem_append_left _ (h.ids id hold)
      · exact List.mem_append_right _ (by simpa using hnew)
  | @remove removed ids' hremoved hsub =>
    refine ⟨fun row hrow => ?_, fun id hid => h.ids id (hsub hid)⟩
    rcases h.rows row hrow with hmem | hsent
    · by_cases hid : row.id ∈ removed
      · exact .inr (h.ids row.id (hremoved hid))
      · exact .inl (List.mem_filter.2 ⟨hmem, by simpa using hid⟩)
    · exact .inr hsent
  | start => exact ⟨h.rows, h.ids⟩
  | crash => exact ⟨h.rows, by simp⟩

/-! ## Rows that nobody sends -/

/-- The row with the id is in the table, and its message is nowhere in the process. -/
structure Lost (id : String) (c : Channel O) (ids : List String) : Prop where
  row : ∃ row ∈ c.rows, row.id = id
  pending : ∀ contexts ∈ c.pending, ∀ context ∈ contexts, context.messageId ≠ id
  sender : c.sender.Holds fun context => context.messageId ≠ id
  ids : id ∉ ids

theorem Lost.crash {row : UnSentMessage O} (h : row ∈ c.rows) : Lost row.id c.crash [] where
  row := ⟨row, h, rfl⟩
  pending := by simp [Channel.crash]
  sender := MessageSender.Holds.new
  ids := by simp

/-- While its row is in the table, no message with the same id can be stored. -/
theorem CanStore.messageId_ne {contexts : List (MessageContext O)} (h : c.CanStore contexts)
    {row : UnSentMessage O} (hrow : row ∈ c.rows) {context : MessageContext O}
    (hcontext : context ∈ contexts) : context.messageId ≠ row.id := by
  unfold CanStore at h
  rw [List.map_append] at h
  intro heq
  refine (List.nodup_append.1 h).2.2 row.id (List.mem_map_of_mem hrow) row.id ?_ rfl
  exact List.mem_map.2 ⟨.new context, List.mem_map_of_mem hcontext, heq⟩

theorem Lost.step {id : String} (h : Lost id c ids) (hstep : Step c ids c' ids') :
    Lost id c' ids' := by
  cases hstep with
  | skip hsub => exact ⟨h.row, h.pending, h.sender, fun hid => h.ids (hsub hid)⟩
  | @store contexts hcan =>
    obtain ⟨row, hrow, rfl⟩ := h.row
    refine ⟨⟨row, List.mem_append_left _ hrow, rfl⟩, fun batch hbatch => ?_, h.sender, h.ids⟩
    rcases List.mem_append.1 hbatch with hold | hnew
    · exact h.pending batch hold
    · cases List.mem_singleton.1 hnew
      exact fun context hcontext => hcan.messageId_ne hrow hcontext
  | submit hsubmit =>
    obtain ⟨contexts, hcontexts, rfl⟩ := Option.map_eq_some_iff.1 hsubmit
    have hbatch := h.pending contexts (List.mem_of_getElem? hcontexts)
    exact ⟨h.row, fun batch hmem => h.pending batch (List.eraseIdx_subset hmem),
      h.sender.foldl_add hbatch, h.ids⟩
  | send hsend =>
    obtain ⟨sender, hsender, hadd, hresult⟩ := send_spec hsend
    have hholds := h.sender.step (fun m hm => absurd hm (hadd m)) hsender
    obtain rfl | ⟨send, hcall, rfl⟩ := hresult
    · exact ⟨h.row, h.pending, hholds, by simpa using h.ids⟩
    · have hne := h.sender.calls send hcall
      exact ⟨h.row, h.pending, hholds, by simpa [Ne.symm hne] using h.ids⟩
  | @remove removed ids' hremoved hsub =>
    obtain ⟨row, hrow, rfl⟩ := h.row
    have hkept : row.id ∉ removed := fun hid => h.ids (hremoved hid)
    exact ⟨⟨row, List.mem_filter.2 ⟨hrow, by simpa using hkept⟩, rfl⟩, h.pending, h.sender,
      fun hid => h.ids (hsub hid)⟩
  | start hstart => exact ⟨h.row, h.pending, h.sender.step (by simp) hstart, h.ids⟩
  | crash =>
    obtain ⟨row, hrow, rfl⟩ := h.row
    exact Lost.crash hrow

end Channel

/-! ## Steps of the outbox -/

namespace Outbox

variable {C E : Type} {database : Database (Tables C E)} {interface : IMessage E}
  {s s' : Outbox C E} {a : Action C E}

/-- What the two statements are meant to do. -/
def deleteRows : MessageType → List String → Tables C E → Tables C E
  | .command, ids, tables => (tables.1.filter fun row => row.id ∉ ids, tables.2)
  | .event, ids, tables => (tables.1, tables.2.filter fun row => row.id ∉ ids)

/-- The statements that are executed in the step have plain ids. -/
def PlainIds (s : Outbox C E) : Action C E → Prop
  | .removeMessages count commandsRemoved eventsRemoved =>
    (commandsRemoved = true → ∀ id ∈ s.removedIds count .command, Plain id.toList) ∧
      (eventsRemoved = true → ∀ id ∈ s.removedIds count .event, Plain id.toList)
  | _ => True

instance : ∀ (s : Outbox C E) (a : Action C E), Decidable (PlainIds s a)
  | s, .removeMessages count commandsRemoved eventsRemoved =>
    inferInstanceAs (Decidable ((commandsRemoved = true → ∀ id ∈ s.removedIds count .command,
      Plain id.toList) ∧ (eventsRemoved = true → ∀ id ∈ s.removedIds count .event,
        Plain id.toList)))
  | _, .commit _ | _, .sendMessageStates _ | _, .sendAsync _ | _, .commandBus _
  | _, .messagePublisher _ | _, .startCommandBus | _, .startMessagePublisher | _, .crash =>
    isTrue trivial

/-- The ids of one type. -/
def idsOf (type : MessageType) (messages : List ToRemoveMessage) : List String :=
  (messages.filter fun m => m.type = type).map ToRemoveMessage.messageId

/-- The ids of one type that the daemon is to remove. -/
def idsToRemove (s : Outbox C E) (type : MessageType) : List String :=
  idsOf type s.toRemoveMessages

theorem idsOf_append (type : MessageType) (messages messages' : List ToRemoveMessage) :
    idsOf type (messages ++ messages') = idsOf type messages ++ idsOf type messages' := by
  simp [idsOf]

theorem idsOf_sublist (type : MessageType) {messages messages' : List ToRemoveMessage}
    (h : messages.Sublist messages') : idsOf type messages ⊆ idsOf type messages' :=
  ((h.filter _).map _).subset

/-- What the daemon gets when a sender has completed a message. -/
theorem idsOf_completed (type type' : MessageType) (completed : Option String) :
    idsOf type (completed.map (⟨·, type'⟩)).toList =
      if type' = type then completed.toList else [] := by
  cases completed with
  | none => simp [idsOf]
  | some id => by_cases htype : type' = type <;> simp [idsOf, htype]

/-- One statement with plain ids deletes their rows, and nothing else. -/
theorem removeUnSent_of_plain (hdb : database.Deletes deleteRows) (s : Outbox C E)
    (type : MessageType) {ids : List String} (hplain : ∀ id ∈ ids, Plain id.toList) :
    s.removeUnSent database type ids =
      some { s with
        commands := if type = .command then s.commands.remove ids else s.commands
        events := if type = .event then s.events.remove ids else s.events } := by
  rw [removeUnSent, Outboxes.removeUnSent_of_plain hdb type hplain]
  by_cases hids : ids = []
  · cases type <;> simp [hids, Channel.remove]
  · cases type <;> simp [hids, deleteRows, Channel.remove]

theorem removeMessages_of_plain (hdb : database.Deletes deleteRows) {count : Nat}
    {commandsRemoved eventsRemoved : Bool}
    (hplain : s.PlainIds (.removeMessages count commandsRemoved eventsRemoved)) :
    s.removeMessages database count commandsRemoved eventsRemoved =
      some { s with
        toRemoveMessages := s.toRemoveMessages.drop count
        commands := if commandsRemoved then s.commands.remove (s.removedIds count .command)
          else s.commands
        events := if eventsRemoved then s.events.remove (s.removedIds count .event)
          else s.events } := by
  obtain ⟨hcommands, hevents⟩ := hplain
  cases commandsRemoved with
  | false =>
    cases eventsRemoved with
    | false => rfl
    | true => simp [removeMessages, removeUnSent_of_plain hdb _ _ (hevents rfl)]
  | true =>
    cases eventsRemoved with
    | false => simp [removeMessages, removeUnSent_of_plain hdb _ _ (hcommands rfl)]
    | true =>
      simp [removeMessages, removeUnSent_of_plain hdb _ _ (hcommands rfl),
        removeUnSent_of_plain hdb _ _ (hevents rfl)]

/-- The daemon takes entries from its queue, and removes the rows of one type if the statement for
that table succeeds. -/
theorem step_removeMessages {O : Type} (c : Channel O) (type : MessageType) (count : Nat)
    (removed : Bool) :
    Channel.Step c (s.idsToRemove type)
      (if removed then c.remove (s.removedIds count type) else c)
      (idsOf type (s.toRemoveMessages.drop count)) := by
  have hdrop := idsOf_sublist type (List.drop_sublist count s.toRemoveMessages)
  cases removed with
  | true => exact .remove (idsOf_sublist type (List.take_sublist count _)) hdrop
  | false => exact .skip hdrop

/-- What a step with plain ids does to both channels, but for the recovery of the events. -/
theorem step_channels (hdb : database.Deletes deleteRows) (hplain : s.PlainIds a)
    (h : step database interface s a = some s') :
    Channel.Step s.commands (s.idsToRemove .command) s'.commands (s'.idsToRemove .command) ∧
      (a ≠ .startMessagePublisher →
        Channel.Step s.events (s.idsToRemove .event) s'.events (s'.idsToRemove .event)) := by
  cases a with
  | commit write =>
    simp only [step] at h
    split at h
    · rename_i hcan
      cases h
      exact ⟨.store hcan.1, fun _ => .store hcan.2⟩
    · cases h
  | sendMessageStates position =>
    obtain ⟨commands, hsubmit, rfl⟩ := Option.map_eq_some_iff.1 h
    exact ⟨.submit hsubmit, fun _ => .skip (List.Subset.refl _)⟩
  | sendAsync position =>
    obtain ⟨events, hsubmit, rfl⟩ := Option.map_eq_some_iff.1 h
    exact ⟨.skip (List.Subset.refl _), fun _ => .submit hsubmit⟩
  | commandBus a =>
    obtain ⟨result, hsend, rfl⟩ := Option.map_eq_some_iff.1 h
    refine ⟨?_, fun _ => .skip ?_⟩
    · simpa [idsToRemove, idsOf_append, idsOf_completed] using Channel.Step.send hsend
    · simp [idsToRemove, idsOf_append, idsOf_completed]
  | messagePublisher a =>
    obtain ⟨result, hsend, rfl⟩ := Option.map_eq_some_iff.1 h
    refine ⟨.skip ?_, fun _ => ?_⟩
    · simp [idsToRemove, idsOf_append, idsOf_completed]
    · simpa [idsToRemove, idsOf_append, idsOf_completed] using Channel.Step.send hsend
  | removeMessages count commandsRemoved eventsRemoved =>
    simp only [step, removeMessages_of_plain hdb hplain] at h
    split at h
    · cases h
      exact ⟨step_removeMessages s.commands .command count commandsRemoved,
        fun _ => step_removeMessages s.events .event count eventsRemoved⟩
    · cases h
  | startCommandBus =>
    obtain ⟨sender, hstart, rfl⟩ := Option.map_eq_some_iff.1 h
    exact ⟨.start hstart, fun _ => .skip (List.Subset.refl _)⟩
  | startMessagePublisher =>
    simp only [step] at h
    split at h
    · cases h
    · cases h
      exact ⟨.skip (List.Subset.refl _), fun hne => absurd rfl hne⟩
  | crash =>
    cases h
    exact ⟨.crash, fun _ => .crash⟩

/-! ## Commands -/

/-- No row of `UnSentCommands` is deleted before its command was produced. -/
theorem commands_kept (hdb : database.Deletes deleteRows) {as : List (Action C E)}
    (hplain : Machine.Along (step database interface) PlainIds init as)
    (hrun : Machine.run (step database interface) init as = some s) :
    s.commands.Kept (s.idsToRemove .command) :=
  hplain.invariant (fun s => s.commands.Kept (s.idsToRemove .command))
    (fun _ _ _ h hP hstep => h.step (step_channels hdb hP hstep).1) Channel.Kept.new hrun

/-- A command that is unsent at a crash is never put into a queue again. -/
theorem lost_of_crash (hdb : database.Deletes deleteRows) {row : UnSentMessage C}
    (hrow : row ∈ s.commands.rows) {bs : List (Action C E)}
    (hplain : Machine.Along (step database interface) PlainIds s (.crash :: bs))
    (hrestart : Machine.run (step database interface) s (.crash :: bs) = some s') :
    s'.commands.Lost row.id (s'.idsToRemove .command) := by
  obtain ⟨t, ht, hrest⟩ := Machine.run_cons_eq_some.1 hrestart
  cases ht
  exact (hplain.2 _ rfl).invariant
    (fun s => s.commands.Lost row.id (s.idsToRemove .command))
    (fun _ _ _ h hP hstep => h.step (step_channels hdb hP hstep).1) (Channel.Lost.crash hrow) hrest

/-- No context is pending for the sender of commands or has been added to it. -/
structure NoCommands (s : Outbox C E) : Prop where
  pending : s.commands.pending = []
  sender : s.commands.sender.Holds fun _ => False

theorem NoCommands.congr (h : s.NoCommands) (hpending : s'.commands.pending = s.commands.pending)
    (hsender : s'.commands.sender = s.commands.sender) : s'.NoCommands :=
  ⟨hpending.trans h.pending, hsender ▸ h.sender⟩

/-- A statement, whatever it does to the rows, is none of the process. -/
theorem removeUnSent_spec {type : MessageType} {ids : List String}
    (h : s.removeUnSent database type ids = some s') :
    s'.commands.pending = s.commands.pending ∧ s'.commands.sender = s.commands.sender := by
  obtain ⟨tables, -, rfl⟩ := Option.map_eq_some_iff.1 h
  exact ⟨rfl, rfl⟩

theorem NoCommands.removeMessages {count : Nat} {commandsRemoved eventsRemoved : Bool}
    (h : s.NoCommands)
    (hremove : s.removeMessages database count commandsRemoved eventsRemoved = some s') :
    s'.NoCommands := by
  obtain ⟨t, hcommands, hevents⟩ := Option.bind_eq_some_iff.1 hremove
  have ht : t.NoCommands := by
    split at hcommands
    · obtain ⟨hpending, hsender⟩ := removeUnSent_spec hcommands
      exact h.congr hpending hsender
    · cases hcommands
      exact h.congr rfl rfl
  split at hevents
  · obtain ⟨hpending, hsender⟩ := removeUnSent_spec hevents
    exact ht.congr hpending hsender
  · cases hevents
    exact ht

/-- Only a commit brings commands. -/
theorem NoCommands.step (h : s.NoCommands) (ha : ∀ write, a ≠ .commit write)
    (hstep : step database interface s a = some s') : s'.NoCommands := by
  cases a with
  | commit write => exact absurd rfl (ha write)
  | sendMessageStates position => simp [Outbox.step, Channel.submit, h.pending] at hstep
  | sendAsync position =>
    obtain ⟨events, -, rfl⟩ := Option.map_eq_some_iff.1 hstep
    exact h.congr rfl rfl
  | commandBus a =>
    obtain ⟨result, hsend, rfl⟩ := Option.map_eq_some_iff.1 hstep
    obtain ⟨sender, hsender, hadd, hresult⟩ := Channel.send_spec hsend
    have hholds := h.sender.step (fun m hm => absurd hm (hadd m)) hsender
    obtain rfl | ⟨send, -, rfl⟩ := hresult
    · exact ⟨h.pending, hholds⟩
    · exact ⟨h.pending, hholds⟩
  | messagePublisher a =>
    obtain ⟨result, -, rfl⟩ := Option.map_eq_some_iff.1 hstep
    exact h.congr rfl rfl
  | removeMessages count commandsRemoved eventsRemoved =>
    simp only [Outbox.step] at hstep
    split at hstep
    · exact h.removeMessages hstep
    · cases hstep
  | startCommandBus =>
    obtain ⟨sender, hstart, rfl⟩ := Option.map_eq_some_iff.1 hstep
    exact ⟨h.pending, h.sender.step (by simp) hstart⟩
  | startMessagePublisher =>
    simp only [Outbox.step] at hstep
    split at hstep
    · cases hstep
    · cases hstep
      exact h.congr rfl rfl
  | crash =>
    cases hstep
    exact ⟨rfl, MessageSender.Holds.new⟩

theorem NoCommands.run {bs : List (Action C E)} (h : s.NoCommands)
    (hbs : ∀ write, Action.commit write ∉ bs)
    (hrun : Machine.run (Outbox.step database interface) s bs = some s') : s'.NoCommands := by
  have halong : Machine.Along (Outbox.step database interface)
      (fun _ a => ∀ write, a ≠ .commit write) s bs := by
    apply Machine.Along.of_mem
    intro a ha write hwrite
    exact hbs write (hwrite ▸ ha)
  exact halong.invariant NoCommands (fun _ _ _ hinv ha hstep => hinv.step ha hstep) h hrun

/-- After any run, a crash, and what follows, both `Start` calls included: the commands that were
committed and not sent before the crash are in the queue of `CommandBus` exactly when there is none.
What follows is either the restart alone, without a new transaction, or anything, as long as the
statements of the daemon have plain ids. -/
theorem unsentCommands_queued_iff_allSent (hdb : database.Deletes deleteRows)
    {as : List (Action C E)} (hrun : Machine.run (step database interface) init as = some s)
    {bs : List (Action C E)}
    (hrestart : Machine.run (step database interface) s (.crash :: bs) = some s')
    (hbs : (∀ write, Action.commit write ∉ bs) ∨
      Machine.Along (step database interface) PlainIds init as ∧
        Machine.Along (step database interface) PlainIds s (.crash :: bs)) :
    (∀ row ∈ s.commands.stored, row.id ∉ s.commands.sent →
      ∃ context ∈ s'.commands.sender.added, context.messageId = row.id) ↔
      ∀ row ∈ s.commands.stored, row.id ∈ s.commands.sent := by
  constructor
  · intro hqueued row hrow
    by_contra hunsent
    obtain ⟨context, hcontext, hid⟩ := hqueued row hrow hunsent
    rcases hbs with hcommits | ⟨hplain, hplain'⟩
    · obtain ⟨t, ht, hrest⟩ := Machine.run_cons_eq_some.1 hrestart
      cases ht
      have hnone : s.crash.NoCommands := ⟨rfl, MessageSender.Holds.new⟩
      exact (hnone.run hcommits hrest).sender.added context hcontext
    · have hmem := ((commands_kept hdb hplain hrun).rows row hrow).resolve_right hunsent
      exact (lost_of_crash hdb hmem hplain' hrestart).sender.added context hcontext hid
  · intro hsent row hrow hunsent
    exact absurd (hsent row hrow) hunsent

/-- A command of a sample application. -/
def sampleCommand : MessageContext String :=
  ⟨"c1", some "CreateOrder", none, none, none, some "commands", some "o1", none⟩

/-- Both senders are started, and the handling of an event is committed. -/
def handleSampleEvent : List (Action String String) :=
  [.startCommandBus, .startMessagePublisher, .commit (.handleEventAsync "e1" [sampleCommand] [])]

/-- The interface of objects that are all messages. -/
def sampleInterface : IMessage String := ⟨fun _ => true, id, some, fun _ => none⟩

/-- A database that executes the two statements. -/
def sampleDatabase : Database (Tables C E) := deleteOnly deleteRows

/-- The command is produced before the crash. -/
theorem unsentCommands_queued_of_sent :
    ∃ s s' : Outbox String String,
      Machine.run (step sampleDatabase sampleInterface) init (handleSampleEvent ++
        [.sendMessageStates 0, .commandBus .take, .commandBus (.succeed 0)]) = some s ∧
      Machine.run (step sampleDatabase sampleInterface) s
          [.crash, .startCommandBus, .startMessagePublisher] = some s' ∧
      ∀ row ∈ s.commands.stored, row.id ∉ s.commands.sent →
        ∃ context ∈ s'.commands.sender.added, context.messageId = row.id := by
  have hrun : (Machine.run (step sampleDatabase sampleInterface) init (handleSampleEvent ++
      [.sendMessageStates 0, .commandBus .take, .commandBus (.succeed 0)])).any (fun s =>
        decide (∀ row ∈ s.commands.stored, row.id ∈ s.commands.sent) &&
        (Machine.run (step sampleDatabase sampleInterface) s
          [.crash, .startCommandBus, .startMessagePublisher]).isSome) = true := by
    decide +kernel
  obtain ⟨s, hs, hcheck⟩ := (Option.any_eq_true _ _).1 hrun
  obtain ⟨hsent, hrestart⟩ := Bool.and_eq_true_iff.1 hcheck
  obtain ⟨s', hs'⟩ := Option.isSome_iff_exists.1 hrestart
  have hcommits : ∀ write : Write String String,
      Action.commit write ∉ [.startCommandBus, .startMessagePublisher] := by simp
  exact ⟨s, s', hs, hs', (unsentCommands_queued_iff_allSent (deleteOnly_deletes deleteRows) hs hs'
    (.inl hcommits)).2 (of_decide_eq_true hsent)⟩

/-- The process crashes before the command is handed to `CommandBus`. -/
theorem unsentCommand_not_queued_after_restart :
    ∃ s s' : Outbox String String,
      Machine.run (step sampleDatabase sampleInterface) init handleSampleEvent = some s ∧
      Machine.run (step sampleDatabase sampleInterface) s
          [.crash, .startCommandBus, .startMessagePublisher] = some s' ∧
      ∃ row ∈ s.commands.stored, row.id ∉ s.commands.sent ∧
        ∀ context ∈ s'.commands.sender.added, context.messageId ≠ row.id := by
  have hrun : (Machine.run (step sampleDatabase sampleInterface) init
      handleSampleEvent).any (fun s =>
      (Machine.run (step sampleDatabase sampleInterface) s
        [.crash, .startCommandBus, .startMessagePublisher]).any fun s' =>
          decide (∃ row ∈ s.commands.stored, row.id ∉ s.commands.sent ∧
            ∀ context ∈ s'.commands.sender.added, context.messageId ≠ row.id)) = true := by
    decide +kernel
  obtain ⟨s, hs, hrest⟩ := (Option.any_eq_true _ _).1 hrun
  obtain ⟨s', hs', hcheck⟩ := (Option.any_eq_true _ _).1 hrest
  exact ⟨s, s', hs, hs', of_decide_eq_true hcheck⟩

/-! ## Published messages -/

/-- A start of `MessagePublisher` recovers every row of `UnPublishedEvents` that is unsent: it keeps
the row, `GetAllUnPublishedEvents` yields a context for it, and the context is put into the
queue. -/
def RecoversUnsent (interface : IMessage E) (s : Outbox C E) : Action C E → Prop
  | .startMessagePublisher =>
    ∀ row ∈ s.events.rows, row.id ∉ s.events.sent →
      row ∈ (s.startMessagePublisher interface).events.rows ∧
      ∃ context ∈ (getAllUnSentMessages interface s.events.rows).1,
        (∃ message, row.message = some message ∧ context = row.wrapMessage interface message) ∧
        ∃ q ∈ (s.startMessagePublisher interface).events.sender.messageStateQueue,
          q.state = context
  | _ => True

/-- The unsent rows of `UnPublishedEvents` that a start of `MessagePublisher` finds hold an
`IMessage`. -/
def UnsentAreMessages (interface : IMessage E) (s : Outbox C E) : Action C E → Prop
  | .startMessagePublisher =>
    ∀ row ∈ s.events.rows, row.id ∉ s.events.sent →
      ∃ message, row.message = some message ∧ interface.isMessage message = true
  | _ => True

/-- No row of `UnPublishedEvents` was deleted before its message was produced. -/
def NoneDeletedUnsent (s : Outbox C E) : Prop :=
  ∀ row ∈ s.events.stored, row.id ∉ s.events.sent → row ∈ s.events.rows

theorem rawMessage_eq_some {O : Type} {interface : IMessage O} {row : UnSentMessage O}
    {message : O} :
    row.rawMessage interface = some message ↔
      row.message = some message ∧ interface.isMessage message = true := by
  simp [UnSentMessage.rawMessage, Option.filter_eq_some_iff]

theorem mem_startMessagePublisher_rows {row : UnSentMessage E} :
    row ∈ (s.startMessagePublisher interface).events.rows ↔
      row ∈ s.events.rows ∧
        ∃ message, row.message = some message ∧ interface.isMessage message = true := by
  simp [startMessagePublisher, Channel.recover, getAllUnSentMessages, Option.isSome_iff_exists,
    rawMessage_eq_some]

/-- The recovery yields a context for each row that it keeps. -/
theorem wrapMessage_mem_getAllUnSentMessages {O : Type} {interface : IMessage O}
    {rows : List (UnSentMessage O)} {row : UnSentMessage O} (hrow : row ∈ rows) {message : O}
    (hmessage : row.message = some message) (his : interface.isMessage message = true) :
    row.wrapMessage interface message ∈ (getAllUnSentMessages interface rows).1 := by
  refine List.mem_filterMap.2 ⟨row, hrow, ?_⟩
  rw [rawMessage_eq_some.2 ⟨hmessage, his⟩]
  rfl

theorem exists_mem_queue_foldl_add {M : Type} {m : M} :
    ∀ {ms : List M} {sender : MessageSender M},
      (m ∈ ms ∨ ∃ q ∈ sender.messageStateQueue, q.state = m) →
      ∃ q ∈ (ms.foldl MessageSender.add sender).messageStateQueue, q.state = m := by
  intro ms
  induction ms with
  | nil =>
    intro sender h
    exact h.resolve_left (by simp)
  | cons m' ms ih =>
    intro sender h
    refine ih ?_
    rcases h with hmem | ⟨q, hq, hstate⟩
    · rcases List.mem_cons.1 hmem with rfl | hrest
      · exact .inr ⟨⟨sender.added.length, m⟩, by simp [MessageSender.add], rfl⟩
      · exact .inl hrest
    · exact .inr ⟨q, by simp [MessageSender.add, hq], hstate⟩

/-- One start recovers the unsent rows exactly when they hold an `IMessage`. -/
theorem recoversUnsent_iff : RecoversUnsent interface s a ↔ UnsentAreMessages interface s a := by
  cases a with
  | startMessagePublisher =>
    constructor
    · intro h row hrow hunsent
      exact (mem_startMessagePublisher_rows.1 (h row hrow hunsent).1).2
    · intro h row hrow hunsent
      obtain ⟨message, hmessage, his⟩ := h row hrow hunsent
      have hcontext := wrapMessage_mem_getAllUnSentMessages hrow hmessage his
      exact ⟨mem_startMessagePublisher_rows.2 ⟨hrow, message, hmessage, his⟩, _, hcontext,
        ⟨message, hmessage, rfl⟩, exists_mem_queue_foldl_add (.inl hcontext)⟩
  | _ => exact Iff.rfl

/-- Every step whose start finds no unsent row that it cannot read keeps the rows that are
unsent. -/
theorem events_kept_step (hdb : database.Deletes deleteRows)
    (h : s.events.Kept (s.idsToRemove .event)) (hplain : s.PlainIds a)
    (hmessages : UnsentAreMessages interface s a)
    (hstep : step database interface s a = some s') :
    s'.events.Kept (s'.idsToRemove .event) := by
  by_cases ha : a = .startMessagePublisher
  · subst ha
    simp only [step] at hstep
    split at hstep
    · cases hstep
    · cases hstep
      refine ⟨fun row hrow => ?_, h.ids⟩
      rcases h.rows row hrow with hmem | hsent
      · by_cases hsent : row.id ∈ s.events.sent
        · exact .inr hsent
        · exact .inl (mem_startMessagePublisher_rows.2 ⟨hmem, hmessages row hmem hsent⟩)
      · exact .inr hsent
  · exact h.step ((step_channels hdb hplain hstep).2 ha)

/-- Along a run in which the statements of the daemon have plain ids, every start of
`MessagePublisher` recovers the unsent rows, and no row is deleted before its message is sent,
exactly when the unsent rows that each start finds hold an `IMessage`. -/
theorem unPublishedEvents_recovered_iff_areMessages (hdb : database.Deletes deleteRows)
    {as : List (Action C E)} (hrun : Machine.run (step database interface) init as = some s)
    (hplain : Machine.Along (step database interface) PlainIds init as) :
    (Machine.Along (step database interface) (RecoversUnsent interface) init as ∧
        s.NoneDeletedUnsent) ↔
      Machine.Along (step database interface) (UnsentAreMessages interface) init as := by
  have hcondition : (RecoversUnsent interface : Outbox C E → Action C E → Prop) =
      UnsentAreMessages interface := by
    funext s a
    exact propext recoversUnsent_iff
  rw [hcondition]
  constructor
  · exact And.left
  · intro h
    have hkept : s.events.Kept (s.idsToRemove .event) :=
      (h.and hplain).invariant (fun s => s.events.Kept (s.idsToRemove .event))
        (fun _ _ _ hinv hP hstep => events_kept_step hdb hinv hP.2 hP.1 hstep) Channel.Kept.new hrun
    exact ⟨h, fun row hrow hunsent => (hkept.rows row hrow).resolve_right hunsent⟩

/-- What a sample application publishes: an event, or the plain value that replies to a command. -/
inductive SamplePublished where
  | event (id : String)
  | result (value : Int)
  deriving DecidableEq, Repr

/-- The events are messages. -/
def publishedInterface : IMessage SamplePublished where
  isMessage
    | .event _ => true
    | .result _ => false
  id
    | .event id => id
    | .result _ => ""
  key _ := none
  getTopic _ := none

instance : ∀ (s : Outbox String SamplePublished) (a : Action String SamplePublished),
    Decidable (UnsentAreMessages publishedInterface s a)
  | s, .startMessagePublisher =>
    decidable_of_iff (∀ row ∈ s.events.rows, row.id ∉ s.events.sent →
      row.message.any publishedInterface.isMessage = true)
      (forall₃_congr fun _ _ _ => Option.any_eq_true _ _)
  | _, .commit _ | _, .sendMessageStates _ | _, .sendAsync _ | _, .commandBus _
  | _, .messagePublisher _ | _, .removeMessages _ _ _ | _, .startCommandBus | _, .crash =>
    isTrue trivial

/-- An event is published and its row deleted. Then a command with one message is handled, the
process crashes before the message is handed to `MessagePublisher`, and starts again. -/
def restartAfter (message : SamplePublished) : List (Action String SamplePublished) :=
  [.startMessagePublisher, .startCommandBus,
    .commit (.saveCommandAsync (some "c0")
      [⟨"m0", some (.event "m0"), none, none, none, some "events", none, some "orders"⟩]),
    .sendAsync 0, .messagePublisher .take, .messagePublisher (.succeed 0),
    .removeMessages 1 true true,
    .commit (.saveCommandAsync (some "c1")
      [⟨"m1", some message, none, none, none, some "replies", none, some "orders"⟩]),
    .crash, .startMessagePublisher, .startCommandBus]

/-- An event is recovered. -/
theorem unPublishedEvents_recovered_of_event :
    ∃ s, Machine.run (step sampleDatabase publishedInterface) init (restartAfter (.event "m1")) =
        some s ∧
      s.events.stored.length = 2 ∧ s.events.rows.length = 1 ∧
      Machine.Along (step sampleDatabase publishedInterface) (RecoversUnsent publishedInterface)
        init (restartAfter (.event "m1")) ∧ s.NoneDeletedUnsent := by
  have hlengths : (Machine.run (step sampleDatabase publishedInterface) init
      (restartAfter (.event "m1"))).map (fun s => (s.events.stored.length, s.events.rows.length)) =
        some (2, 1) := by decide +kernel
  have hmessages : Machine.Along (step sampleDatabase publishedInterface)
      (UnsentAreMessages publishedInterface) init (restartAfter (.event "m1")) := by decide +kernel
  have hplain : Machine.Along (step sampleDatabase publishedInterface) PlainIds init
      (restartAfter (.event "m1")) := by decide +kernel
  obtain ⟨s, hs, hlength⟩ := Option.map_eq_some_iff.1 hlengths
  obtain ⟨hstored, hrows⟩ := Prod.mk.inj hlength
  exact ⟨s, hs, hstored, hrows, (unPublishedEvents_recovered_iff_areMessages
    (deleteOnly_deletes deleteRows) hs hplain).2 hmessages⟩

/-- The row of a plain reply is deleted, although the reply was not sent. -/
theorem plain_reply_deleted_unsent :
    ∃ s, Machine.run (step sampleDatabase publishedInterface) init (restartAfter (.result 1)) =
        some s ∧
      ∃ row ∈ s.events.stored, row.id ∉ s.events.sent ∧ row ∉ s.events.rows ∧
        s.events.sender.added = [] := by
  have hrun : (Machine.run (step sampleDatabase publishedInterface) init
      (restartAfter (.result 1))).any
        (fun s => decide (∃ row ∈ s.events.stored, row.id ∉ s.events.sent ∧
          row ∉ s.events.rows ∧ s.events.sender.added = [])) = true := by
    decide +kernel
  obtain ⟨s, hs, hcheck⟩ := (Option.any_eq_true _ _).1 hrun
  exact ⟨s, hs, of_decide_eq_true hcheck⟩

end Outbox

end IFramework.Outboxes
