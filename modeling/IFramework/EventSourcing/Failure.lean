import IFramework.EventSourcing.Coherence
import IFramework.EventSourcing.ConsumeMessage

/-!
# A command that fails

When a handler throws, `ConsumeMessage` commits nevertheless: the `finally` block calls `CommitAsync`
on the entry and on the event bus that the handler has left. So the events that it has raised are
appended and sent, and so are the events that it has published, unless there are none, or the event
store refuses the commit (`leaves_no_trace_iff`).
-/

namespace IFramework.EventSourcing

section Definitions

variable {S P R T : Type}

/-- The batches in the sorted set of an aggregate. -/
def streamOf (db : Redis T) (id : String) : List (Int × List (ObjectPayload T)) :=
  match db (aggregateEventKey id) with
  | some (.zset ms) => ms
  | _ => []

/-- However it goes on, the handler throws. -/
def Handler.AlwaysThrows : Handler S P R → Prop
  | .return => False
  | .throw _ => True
  | .call _ next => next.AlwaysThrows
  | .getByKey next => ∀ aggregate, (next aggregate).AlwaysThrows

/-- The version check refuses what a handler has left on an aggregate that it has loaded. -/
def Conflicts (db : Redis T) (key : String) (s : Scope S P R) : Prop :=
  0 < s.expectedVersion ∧ s.expectedVersion ≠ (streamOf db key).length

instance (db : Redis T) (key : String) (s : Scope S P R) : Decidable (Conflicts db key s) :=
  inferInstanceAs (Decidable (_ ∧ _))

/-- What the last run of a handler leaves, and what it throws: the first run, or the second one if
the aggregate in memory is out of date. -/
def lastRun (type : AggregateType S P) (json : Json T P R) (key : String)
    (handler : Handler S P R) (st : Stores S T) : Scope S P R × Option (Exn P) :=
  if Conflicts st.redis key (handler.run type json key st .new).2.1 then
    (handler.run type json key { st with memory := Function.update st.memory key none } .new).2
  else (handler.run type json key st .new).2

/-- The event store refuses to add the aggregate: it has events, or its key is used for a
document. -/
def RefusesAdd (db : Redis T) (context : CommandContext) : Prop :=
  streamOf db context.key ≠ [] ∨
    (∃ document, db (aggregateEventKey context.key) = some (.json document)) ∨
    aggregateCommandKey context.key context.messageId = aggregateEventKey context.key

/-- The handler has left no events; or it has left events of an aggregate that it has added and that
the event store refuses. -/
def LeavesNoEvents (db : Redis T) (context : CommandContext) (s : Scope S P R) : Prop :=
  (s.aggregateEvents.getD [] = [] ∧ s.bus.getEvents = []) ∨
    (s.expectedVersion = 0 ∧ RefusesAdd db context)

/-- The stream is as before, and only the event of the exception, if any, and a reply with an
exception are sent, apart from a reply to the saga. -/
structure LeavesNoTrace (db : Redis T) (key : String) (thrown : Option (Exn P))
    (result : Stores S T × List (Message P R)) : Prop where
  stream : streamOf result.1.redis key = streamOf db key
  events : result.2.filterMap Message.event? = [] ∨
    result.2.filterMap Message.event? = (thrown.bind Exn.domainExceptionEvent).toList
  replies : ∀ reply correlationId topic, .reply reply correlationId topic ∈ result.2 →
    ∃ e, reply = some (.exn e)

end Definitions

section Runs

variable {S P R T : Type} {type : AggregateType S P} {json : Json T P R} {key : String}
  {st st₀ : Stores S T}

theorem redis_getByKeyAsync : (getByKeyAsync type json key st).1.redis = st.redis := by
  unfold getByKeyAsync
  split
  · rfl
  · split
    · rfl
    · split <;> rfl

theorem getByKeyAsync_of_memory {a : Stored S} (h : st.memory key = some a) :
    getByKeyAsync type json key st = (st, .ok (some a)) := by
  simp [getByKeyAsync, h]

theorem getByKeyAsync_of_none (h : getByKeyAsync type json key st = (st₀, .ok none)) :
    st₀ = st := by
  unfold getByKeyAsync at h
  split at h
  · cases h
  · split at h
    · cases h
    · split at h
      · cases h
        rfl
      · cases h

theorem Handler.AlwaysThrows.run (type : AggregateType S P) (json : Json T P R) (key : String)
    {handler : Handler S P R} (h : handler.AlwaysThrows) :
    ∀ (st : Stores S T) (s : Scope S P R), ∃ e, (handler.run type json key st s).2.2 = some e := by
  induction handler with
  | «return» => exact h.elim
  | throw e => exact fun st s => ⟨e, rfl⟩
  | call c next ih =>
    intro st s
    unfold Handler.run
    split
    · exact ih h _ _
    · exact ⟨_, rfl⟩
  | getByKey next ih =>
    intro st s
    unfold Handler.run
    split
    · exact ih _ (h _) _ _
    · split
      · exact ⟨_, rfl⟩
      · exact ih _ (h _) _ _
      · exact ih _ (h _) _ _

theorem entry_perform_ne_none {c : HandlerCall P R} {s s' : Scope S P R}
    (h : c.perform type s = .ok s') (hentry : s.entry ≠ none) : s'.entry ≠ none := by
  unfold HandlerCall.perform at h
  split at h
  · cases h
    simp
  · split at h <;> cases h
    simp
  · split at h <;> cases h
    simp
  all_goals
    cases h
    exact hentry

theorem Handler.run_spec (handler : Handler S P R) :
    ∀ (st : Stores S T) (s : Scope S P R),
      (st = st₀ ∨ (st = (getByKeyAsync type json key st₀).1 ∧ s.entry ≠ none)) →
      (∀ e, s.entry = some e →
        EntryOf type (fun a => (getByKeyAsync type json key st₀).2 = .ok (some a)) e) →
      ((handler.run type json key st s).1 = st₀ ∨
        (handler.run type json key st s).1 = (getByKeyAsync type json key st₀).1) ∧
      ∀ e, (handler.run type json key st s).2.1.entry = some e →
        EntryOf type (fun a => (getByKeyAsync type json key st₀).2 = .ok (some a)) e := by
  induction handler with
  | «return» =>
    intro st s hst hs
    exact ⟨hst.imp_right And.left, hs⟩
  | throw e =>
    intro st s hst hs
    exact ⟨hst.imp_right And.left, hs⟩
  | call c next ih =>
    intro st s hst hs
    unfold Handler.run
    split
    · next s' hperform =>
      refine ih st s' (hst.imp_right fun h => ⟨h.1, ?_⟩) (entry_perform hperform hs)
      exact entry_perform_ne_none hperform h.2
    · exact ⟨hst.imp_right And.left, hs⟩
  | getByKey next ih =>
    intro st s hst hs
    unfold Handler.run
    split
    · exact ih _ st s hst hs
    · next hentry =>
      obtain rfl : st = st₀ := by
        rcases hst with hst | ⟨-, hne⟩
        · exact hst
        · exact absurd hentry hne
      split
      · next st' e hload => exact ⟨.inr (by rw [hload]), hs⟩
      · next st' hload =>
        exact ih _ st' s (.inl (getByKeyAsync_of_none hload)) hs
      · next st' a hload =>
        refine ih _ st' _ (.inr ⟨by rw [hload], by simp⟩) ?_
        rintro e ⟨⟩
        exact .loaded (by rw [hload]) false []

/-- The stores hold versions of the aggregate. -/
structure StoresOf (type : AggregateType S P) (json : Json T P R) (key : String)
    (bs : List (Batch S P)) (st : Stores S T) : Prop where
  represents : Represents json st.redis key bs
  versioned : Versioned bs
  memory : ∀ a, st.memory key = some a → IsVersionOf type bs a
  snapshots : ∀ a, st.snapshots key = some a → IsVersionOf type bs a

theorem Coherent.stores {keyOf : String → String} {s : State S P R T}
    (h : Coherent type json keyOf s) (processor : Nat) (key : String) :
    StoresOf type json key (s.batches key) ⟨s.redis, s.snapshots, s.memory processor⟩ :=
  ⟨h.represents key, (h.sequential key).versioned, h.memory processor key, h.snapshots key⟩

variable {bs : List (Batch S P)} {handler : Handler S P R}

theorem streamOf_of_represents {db : Redis T} (h : Represents json db key bs) :
    streamOf db key = members json bs := by
  unfold streamOf
  unfold Represents at h
  split at h
  · next hnil =>
    subst hnil
    split
    · next ms hms => exact absurd hms (h ms)
    · rfl
  · rw [h]

/-- An aggregate that is not in memory is loaded in its current version. -/
theorem getByKeyAsync_current (hst : StoresOf type json key bs st) (hmemory : st.memory key = none)
    {a : Stored S} (h : (getByKeyAsync type json key st).2 = .ok (some a)) :
    a = afterBatches type bs := by
  simp only [getByKeyAsync, hmemory] at h
  split at h
  · cases h
  · next events hevents =>
    rw [rebuild_of_represents type hst.versioned hst.represents hst.snapshots hevents] at h
    split at h
    · cases h
    · next hrebuild =>
      cases h
      split at hrebuild
      · cases hrebuild
      · cases hrebuild
        rfl

/-- The version with which a commit is made, if the aggregate was not added, is the one that was
loaded. -/
theorem version_of_run (h : 0 < (handler.run type json key st .new).2.1.expectedVersion) :
    ∃ a, (getByKeyAsync type json key st).2 = .ok (some a) ∧
      (handler.run type json key st .new).2.1.expectedVersion = a.version := by
  obtain ⟨-, hentry⟩ := handler.run_spec st .new (.inl rfl) (fun e he => by cases he)
  obtain ⟨e, -, he, -, hexpected⟩ := changed_of_expectedVersion h.le
  cases hentry e he with
  | added deleted ps =>
    rw [hexpected] at h
    exact absurd h (by simp)
  | loaded ha deleted ps => exact ⟨_, ha, hexpected⟩

/-- Without the aggregate in memory there is no conflict. -/
theorem not_conflicts_of_memory (hst : StoresOf type json key bs st)
    (hmemory : st.memory key = none) :
    ¬Conflicts st.redis key (handler.run type json key st .new).2.1 := by
  rintro ⟨hpos, hne⟩
  obtain ⟨a, hload, hversion⟩ := version_of_run hpos
  refine hne ?_
  rw [hversion, getByKeyAsync_current hst hmemory hload, streamOf_of_represents hst.represents]
  simp [afterBatches, members]

/-- A conflict shows that the aggregate in memory is out of date; nothing was loaded. -/
theorem Conflicts.memory (hst : StoresOf type json key bs st)
    (h : Conflicts st.redis key (handler.run type json key st .new).2.1) :
    (handler.run type json key st .new).1 = st := by
  cases hmemory : st.memory key with
  | some a' =>
    rcases (handler.run_spec st .new (.inl rfl) (fun e he => by cases he)).1 with hsame | hsame
    · exact hsame
    · rw [hsame, getByKeyAsync_of_memory hmemory]
  | none => exact absurd h (not_conflicts_of_memory hst hmemory)

end Runs

/-! ## The commit after an exception -/

section Commit

variable {S P R T : Type} {context : CommandContext}

theorem getEvents_handleException (context : CommandContext) (s : Scope S P R) (e : Exn P) :
    (handleException context s e).bus.getEvents =
      s.bus.getEvents ++ e.domainExceptionEvent.toList := by
  cases e with
  | domain errorCode message event =>
    cases event <;> simp [handleException, EventBus.getEvents, Exn.domainExceptionEvent]
  | other message baseMessage =>
    simp only [handleException]
    split <;> simp [EventBus.getEvents, Exn.domainExceptionEvent]

theorem reply_handleException (context : CommandContext) (s : Scope S P R) (e : Exn P) :
    ∃ e', (handleException context s e).reply = some (.exn e') := by
  unfold handleException
  split
  · exact ⟨_, rfl⟩
  · exact ⟨_, rfl⟩

theorem events_outgoing (s : Scope S P R) :
    (outgoing context s).filterMap Message.event? = s.bus.getEvents := by
  have hsaga : (sagaReplyMessage context.sagaInfo s.bus).toList.filterMap
      (Message.event? (P := P) (R := R)) = [] := by
    unfold sagaReplyMessage
    split
    · split <;> rfl
    · rfl
  have hreply : (if !isNullOrEmpty context.replyToEndPoint then
      [Message.reply (s.reply.map wrapMessage) context.messageId
        (context.replyToEndPoint.getD "")] else []).filterMap
      (Message.event? (P := P) (R := R)) = [] := by
    split <;> rfl
  rw [outgoing, List.filterMap_append, List.filterMap_append, hsaga, hreply]
  simp [List.filterMap_map, Function.comp_def, Message.event?]

/-- The reply that is sent is an exception if the reply of the context is one. -/
theorem reply_outgoing {s : Scope S P R} {e : Exn P} (h : s.reply = some (.exn e))
    {reply : Option (Obj P R)} {correlationId topic : String}
    (hmem : .reply reply correlationId topic ∈ outgoing context s) :
    ∃ e', reply = some (.exn e') := by
  rw [outgoing, List.mem_append, List.mem_append] at hmem
  rcases hmem with (hmem | hmem) | hmem
  · obtain ⟨event, -, heq⟩ := List.mem_map.1 hmem
    cases heq
  · have hsaga := Option.mem_toList.1 hmem
    unfold sagaReplyMessage at hsaga
    split at hsaga
    · split at hsaga <;> cases hsaga
    · cases hsaga
  · split at hmem
    · cases List.mem_singleton.1 hmem
      rw [h]
      cases e with
      | domain errorCode message event => exact ⟨_, rfl⟩
      | other message baseMessage => exact ⟨_, rfl⟩
    · cases hmem

/-- What is left when `CommitAsync` has ended otherwise than by a conflict. -/
def conclude (context : CommandContext) (r : Stores S T × Scope S P R × CommitOutcome) :
    Stores S T × List (Message P R) :=
  (r.1, if r.2.2 = .returned then outgoing context r.2.1 else [])

variable {db : Redis T} {r : Stores S T × Scope S P R × CommitOutcome} {e e' : Exn P}

/-- A commit that has returned sends the events of the bus. -/
theorem leavesNoTrace_returned (houtcome : r.2.2 = .returned)
    (hreply : r.2.1.reply = some (.exn e')) :
    LeavesNoTrace db context.key (some e) (conclude context r) ↔
      streamOf r.1.redis context.key = streamOf db context.key ∧
        (r.2.1.bus.getEvents = [] ∨ r.2.1.bus.getEvents = e.domainExceptionEvent.toList) := by
  have hmessages : (conclude context r).2 = outgoing context r.2.1 := if_pos houtcome
  constructor
  · rintro ⟨hstream, hevents, -⟩
    rw [hmessages, events_outgoing] at hevents
    exact ⟨hstream, hevents⟩
  · rintro ⟨hstream, hevents⟩
    refine ⟨hstream, ?_, ?_⟩
    · rw [hmessages, events_outgoing]
      exact hevents
    · rw [hmessages]
      exact fun reply correlationId topic => reply_outgoing hreply

theorem leavesNoTrace_failed (houtcome : r.2.2 = .redisException)
    (hstream : streamOf r.1.redis context.key = streamOf db context.key) :
    LeavesNoTrace db context.key (some e) (conclude context r) := by
  have hmessages : (conclude context r).2 = [] := if_neg (by simp [houtcome])
  refine ⟨hstream, .inl ?_, ?_⟩
  · rw [hmessages]
    rfl
  · rw [hmessages]
    simp

end Commit

section Settled

variable {S P R T : Type} [DecidableEq T] {type : AggregateType S P} {json : Json T P R}
  {context : CommandContext} {bs : List (Batch S P)} {st : Stores S T}

omit [DecidableEq T] in
theorem mem_insertMember (score : Int) (member : List (ObjectPayload T))
    (ms : List (Int × List (ObjectPayload T))) :
    (score, member) ∈ insertMember score member ms := by
  induction ms with
  | nil => simp [insertMember]
  | cons m ms ih =>
    unfold insertMember
    split
    · exact List.mem_cons_of_mem _ ih
    · exact List.mem_cons_self

theorem exists_zadd {db : Redis T} {key : String} (h : ∀ document, db key ≠ some (.json document))
    (score : Int) (member : List (ObjectPayload T)) :
    ∃ db', zadd db key score member = .ok db' := by
  unfold zadd
  split
  · exact ⟨_, rfl⟩
  · exact ⟨_, rfl⟩
  · next document hdocument => exact absurd hdocument (h document)

theorem streamOf_zadd_ne {db db' : Redis T} {key : String} {member : List (ObjectPayload T)}
    {score : Int} (hscore : ∀ m ∈ streamOf db key, m.1 < score)
    (hadd : zadd db (aggregateEventKey key) score member = .ok db') :
    streamOf db' key ≠ streamOf db key := by
  have hmem : (score, member) ∈ streamOf db' key := by
    unfold zadd at hadd
    split at hadd
    · cases hadd
      simp [streamOf]
    · cases hadd
      simp [streamOf, mem_insertMember]
    · cases hadd
  intro heq
  rw [heq] at hmem
  exact absurd (hscore _ hmem) (lt_irrefl _)

omit [DecidableEq T] in
/-- A document that is put under a free key does not matter. -/
theorem streamOf_update {db : Redis T} {key id : String} (h : db key = none)
    (document : CommandResult T) :
    streamOf (Function.update db key (some (.json document))) id = streamOf db id := by
  by_cases hkey : aggregateEventKey id = key
  · simp [streamOf, hkey, h]
  · simp [streamOf, hkey]

/-- `AppendEvents` changes the stream when it accepts events. -/
theorem appendEvents_changes_stream (json : Json T P R) {db : Redis T} {a : AppendArguments P R}
    (hcommand : db (aggregateCommandKey a.id a.correlationId) = none)
    (hkey : aggregateCommandKey a.id a.correlationId ≠ aggregateEventKey a.id ∧
      ∀ document, db (aggregateEventKey a.id) ≠ some (.json document))
    (hexpected : 0 ≤ a.expectedVersion)
    (hversion : zrevrange db (aggregateEventKey a.id) = .ok none ∨
      zrevrange db (aggregateEventKey a.id) = .ok (some a.expectedVersion))
    (hscore : ∀ m ∈ streamOf db a.id, m.1 < a.expectedVersion + 1) :
    ∃ db', appendEvents json db a = (db', .appended) ∧ streamOf db' a.id ≠ streamOf db a.id := by
  have hfree : ∀ document, Function.update db (aggregateCommandKey a.id a.correlationId)
      (some (.json (a.document json))) (aggregateEventKey a.id) ≠ some (.json document) := by
    simpa [hkey.1.symm] using hkey.2
  obtain ⟨db', hadd⟩ := exists_zadd hfree (a.expectedVersion + 1)
    ((a.parameters json).aggregateRootEvents.getD [])
  refine ⟨db', ?_, ?_⟩
  · rw [appendEvents_of_version json hcommand hexpected hversion, hadd]
  · rw [← streamOf_update hcommand (a.document json)] at hscore ⊢
    exact streamOf_zadd_ne hscore hadd

omit [DecidableEq T] in
@[simp] theorem redis_apply (key : String) (st : Stores S T) (effect : MemoryEffect S) :
    (effect.apply key st).redis = st.redis := by
  cases effect <;> rfl

theorem commitStores_of_append {s : Scope S P R} {redis : Redis T} {outcome : AppendOutcome P R}
    (h : appendEvents json st.redis (commitArguments context s) = (redis, outcome)) :
    commitStores json context st s =
      ((settle s outcome).2.1.apply context.key { st with redis := redis }, (settle s outcome).1,
        (settle s outcome).2.2) := by
  simp only [commitStores, commitAsync, h]

omit [DecidableEq T] in
theorem expectedVersion_handleException (context : CommandContext) (s : Scope S P R)
    (e : Exn P) :
    (handleException context s e).expectedVersion = s.expectedVersion ∧
      (handleException context s e).aggregateEvents = s.aggregateEvents := by
  unfold Scope.expectedVersion Scope.aggregateEvents Scope.changed
  rw [entry_handleException]
  exact ⟨rfl, rfl⟩

variable {s : Scope S P R} {e e' : Exn P}
  (hcommand : st.redis (aggregateCommandKey context.key context.messageId) = none)

include hcommand

/-- Without events of the aggregate the command is stored, and the events of the bus are sent. -/
theorem commit_without_events (json : Json T P R) (hreply : s.reply = some (.exn e'))
    (hneg : s.expectedVersion < 0) :
    (commitStores json context st s).2.2 ≠ .dbConcurrencyException ∧
      (LeavesNoTrace st.redis context.key (some e)
        (conclude context (commitStores json context st s)) ↔
          s.bus.getEvents = [] ∨ s.bus.getEvents = e.domainExceptionEvent.toList) := by
  have happend := appendEvents_of_neg json (a := commitArguments context s) hcommand hneg
  have hevents : (s.bus.publishAll s.aggregateEvents).getEvents = s.bus.getEvents := by
    simp [EventBus.getEvents, s.expectedVersion_neg_iff.1 hneg]
  rw [commitStores_of_append happend, leavesNoTrace_returned rfl hreply, redis_apply]
  refine ⟨by simp [settle], ?_⟩
  simp only [settle, hevents]
  exact and_iff_right (streamOf_update hcommand _)

/-- An aggregate that the event store refuses to add leaves no trace. -/
theorem commit_refused (hst : Represents json st.redis context.key bs)
    (hexpected : s.expectedVersion = 0) (hrefuses : RefusesAdd st.redis context) :
    (commitStores json context st s).2.2 ≠ .dbConcurrencyException ∧
      LeavesNoTrace st.redis context.key (some e)
        (conclude context (commitStores json context st s)) := by
  have hzero : (commitArguments context s).expectedVersion = 0 := hexpected
  have hnonneg : 0 ≤ (commitArguments context s).expectedVersion := hzero.ge
  by_cases hbs : bs = []
  · subst hbs
    rcases hrefuses with hstream | ⟨document, hkey⟩ | hkey
    · exact absurd (streamOf_of_represents hst) hstream
    · have happend := appendEvents_of_wrongType json (a := commitArguments context s) hcommand
        hnonneg hkey
      rw [commitStores_of_append happend]
      exact ⟨by simp [settle], leavesNoTrace_failed rfl rfl⟩
    · have hfree : st.redis (aggregateEventKey context.key) = none := hkey ▸ hcommand
      have happend := appendEvents_of_version json (a := commitArguments context s) hcommand
        hnonneg (.inl (by simp [zrevrange, commitArguments, hfree]))
      have hadd : ∀ document score member, zadd (Function.update st.redis
          (aggregateCommandKey context.key context.messageId) (some (.json document)))
          (aggregateEventKey context.key) score member = .error .wrongType := by
        intro document score member
        simp [zadd, hkey]
      simp only [commitArguments, hadd] at happend
      rw [commitStores_of_append happend]
      exact ⟨by simp [settle], leavesNoTrace_failed rfl (streamOf_update hcommand _)⟩
  · have happend := appendEvents_of_conflict json (a := commitArguments context s) hcommand
      hnonneg (zrevrange_of_represents hst hbs) (by simpa [hzero] using hbs)
    rw [if_pos hzero] at happend
    rw [commitStores_of_append happend, leavesNoTrace_returned rfl rfl]
    exact ⟨by simp [settle], rfl, .inl rfl⟩

theorem commit_accepted (hst : Represents json st.redis context.key bs)
    (hreply : s.reply = some (.exn e')) (hexpected : s.expectedVersion = bs.length)
    (hadds : bs = [] → ¬RefusesAdd st.redis context) :
    (commitStores json context st s).2.2 ≠ .dbConcurrencyException ∧
      ¬LeavesNoTrace st.redis context.key (some e)
        (conclude context (commitStores json context st s)) := by
  have hkey : aggregateCommandKey context.key context.messageId ≠ aggregateEventKey context.key ∧
      ∀ document, st.redis (aggregateEventKey context.key) ≠ some (.json document) := by
    by_cases hbs : bs = []
    · have hnot := hadds hbs
      refine ⟨fun hkey => hnot (.inr (.inr hkey)), fun document hdocument => ?_⟩
      exact hnot (.inr (.inl ⟨document, hdocument⟩))
    · rw [Represents, if_neg hbs] at hst
      refine ⟨fun hkey => ?_, fun document hdocument => ?_⟩
      · rw [hkey, hst] at hcommand
        cases hcommand
      · rw [hst] at hdocument
        cases hdocument
  have hversion : zrevrange st.redis (aggregateEventKey context.key) = .ok none ∨
      zrevrange st.redis (aggregateEventKey context.key) = .ok (some s.expectedVersion) := by
    by_cases hbs : bs = []
    · left
      subst hbs
      unfold zrevrange
      split
      · rfl
      · next ms hms => exact absurd hms (hst ms)
      · next document hdocument => exact absurd hdocument (hkey.2 document)
    · right
      rw [hexpected]
      exact zrevrange_of_represents hst hbs
  have hscore : ∀ m ∈ streamOf st.redis context.key, m.1 < s.expectedVersion + 1 := by
    intro m hm
    rw [streamOf_of_represents hst] at hm
    obtain ⟨i, b, hi, -, rfl⟩ := exists_of_mem_members hm
    simp only [hexpected]
    omega
  obtain ⟨db', happend, hchanged⟩ := appendEvents_changes_stream json
    (a := commitArguments context s) hcommand hkey (by simp [commitArguments, hexpected]) hversion
    hscore
  rw [commitStores_of_append happend, leavesNoTrace_returned rfl hreply, redis_apply]
  exact ⟨by simp [settle], fun h => hchanged h.1⟩

/-- What is left of a handler that has thrown, when there is no conflict. -/
theorem commit_iff (hst : Represents json st.redis context.key bs)
    (hconflicts : ¬Conflicts st.redis context.key s) :
    (commitStores json context st (handleException context s e)).2.2 ≠ .dbConcurrencyException ∧
      (LeavesNoTrace st.redis context.key (some e)
        (conclude context (commitStores json context st (handleException context s e))) ↔
          LeavesNoEvents st.redis context s) := by
  obtain ⟨e', hreply⟩ := reply_handleException context s e
  obtain ⟨hexpected, -⟩ := expectedVersion_handleException context s e
  have hevents : 0 ≤ s.expectedVersion → s.aggregateEvents.getD [] ≠ [] := by
    intro hnonneg hnil
    exact absurd (s.expectedVersion_neg_iff.2 hnil) (not_lt.2 hnonneg)
  rcases lt_trichotomy s.expectedVersion 0 with hneg | hzero | hpos
  · have hcommit := commit_without_events (e := e) hcommand json hreply (hexpected.trans_lt hneg)
    refine ⟨hcommit.1, hcommit.2.trans ?_⟩
    rw [getEvents_handleException, List.append_eq_nil_iff, List.append_left_eq_self]
    constructor
    · intro h
      exact .inl ⟨s.expectedVersion_neg_iff.1 hneg, h.elim And.left id⟩
    · rintro (⟨-, hbus⟩ | ⟨hzero, -⟩)
      · exact .inr hbus
      · exact absurd hzero hneg.ne
  · by_cases hrefuses : RefusesAdd st.redis context
    · have hcommit := commit_refused (e := e) hcommand hst (hexpected.trans hzero) hrefuses
      exact ⟨hcommit.1, iff_of_true hcommit.2 (.inr ⟨hzero, hrefuses⟩)⟩
    · have hlength : bs.length = 0 := by
        have hstream := not_not.1 fun h => hrefuses (.inl h)
        rw [streamOf_of_represents hst] at hstream
        simpa [members] using congrArg List.length hstream
      have hcommit := commit_accepted (e := e) hcommand hst hreply
        (by rw [hexpected, hzero, hlength]; rfl) (fun _ => hrefuses)
      refine ⟨hcommit.1, iff_of_false hcommit.2 ?_⟩
      rintro (⟨hnil, -⟩ | ⟨-, hrefuses'⟩)
      · exact hevents hzero.ge hnil
      · exact hrefuses hrefuses'
  · have hlength : s.expectedVersion = bs.length := by
      have hsame := not_not.1 fun h => hconflicts ⟨hpos, h⟩
      rw [hsame, streamOf_of_represents hst]
      simp [members]
    have hcommit := commit_accepted (e := e) hcommand hst hreply (hexpected.trans hlength)
      (by rintro rfl; simp [hlength] at hpos)
    refine ⟨hcommit.1, iff_of_false hcommit.2 ?_⟩
    rintro (⟨hnil, -⟩ | ⟨hzero, -⟩)
    · exact hevents hpos.le hnil
    · exact hpos.ne hzero.symm

end Settled

section Failure

variable {S P R T : Type} [DecidableEq T] {type : AggregateType S P} {json : Json T P R}
  {context : CommandContext} {bs : List (Batch S P)} {st : Stores S T} {handler : Handler S P R}

theorem processAsync_of_attempt {s : Scope S P R} (n : Nat)
    (h : (attempt type json context handler st s).2.2 ≠ .dbConcurrencyException) :
    processAsync type json context handler n st s =
      conclude context (attempt type json context handler st s) := by
  unfold processAsync
  generalize attempt type json context handler st s = result at h
  rcases result with ⟨st', s', outcome⟩
  cases outcome with
  | returned => rfl
  | redisException => rfl
  | dbConcurrencyException => exact absurd rfl h

theorem processAsync_iff (n : Nat) {s : Scope S P R} (hbegin : s.begin = .new)
    (hst : StoresOf type json context.key bs st) (hthrows : handler.AlwaysThrows)
    (hcommand : st.redis (aggregateCommandKey context.key context.messageId) = none)
    (hconflicts : ¬Conflicts st.redis context.key
      (handler.run type json context.key st .new).2.1) :
    LeavesNoTrace st.redis context.key (handler.run type json context.key st .new).2.2
        (processAsync type json context handler n st s) ↔
      LeavesNoEvents st.redis context (handler.run type json context.key st .new).2.1 := by
  obtain ⟨e, he⟩ := hthrows.run type json context.key st .new
  have hredis : (handler.run type json context.key st .new).1.redis = st.redis := by
    rcases (handler.run_spec st .new (.inl rfl) (fun e he => by cases he)).1 with hsame | hsame
    · rw [hsame]
    · rw [hsame, redis_getByKeyAsync]
  have hattempt : attempt type json context handler st s =
      commitStores json context (handler.run type json context.key st .new).1
        (handleException context (handler.run type json context.key st .new).2.1 e) := by
    simp only [attempt, hbegin, he, beforeCommit]
  have hcommand' : (handler.run type json context.key st .new).1.redis
      (aggregateCommandKey context.key context.messageId) = none := by
    rw [hredis]
    exact hcommand
  obtain ⟨houtcome, hiff⟩ := commit_iff (e := e) hcommand' (hredis ▸ hst.represents)
    (hredis ▸ hconflicts)
  rw [processAsync_of_attempt n (hattempt ▸ houtcome), hattempt, he]
  rwa [hredis] at hiff

/-- A conflict: the aggregate is removed from memory, and the handler runs once more. -/
theorem attempt_of_conflicts {s : Scope S P R} (hbegin : s.begin = .new)
    (hst : StoresOf type json context.key bs st)
    (hcommand : st.redis (aggregateCommandKey context.key context.messageId) = none)
    (hconflicts : Conflicts st.redis context.key
      (handler.run type json context.key st .new).2.1) :
    ∃ s', s'.begin = .new ∧ attempt type json context handler st s =
      ({ st with memory := Function.update st.memory context.key none }, s',
        .dbConcurrencyException) := by
  have hsame := hconflicts.memory hst
  obtain ⟨a, hmemory⟩ : ∃ a, st.memory context.key = some a := by
    by_contra hnone
    exact not_conflicts_of_memory hst (Option.eq_none_iff_forall_ne_some.2
      fun a ha => hnone ⟨a, ha⟩) hconflicts
  obtain ⟨n, hpos, hle, -⟩ := hst.memory a hmemory
  have hbs : bs ≠ [] := List.length_pos_iff.1 (by omega)
  generalize hrun : handler.run type json context.key st .new = result at hsame hconflicts
  obtain ⟨st₁, s₁, thrown⟩ := result
  obtain rfl : st₁ = st := hsame
  have hexpected : (beforeCommit context s₁ thrown).expectedVersion = s₁.expectedVersion := by
    cases thrown with
    | none => rfl
    | some e => exact (expectedVersion_handleException context s₁ e).1
  have hne : (bs.length : Int) ≠ (beforeCommit context s₁ thrown).expectedVersion := by
    have hne := hconflicts.2
    rw [streamOf_of_represents hst.represents] at hne
    rw [hexpected]
    simpa [members] using hne.symm
  have hlt : 0 < (beforeCommit context s₁ thrown).expectedVersion := hexpected ▸ hconflicts.1
  obtain ⟨e, hchanged, -⟩ := changed_of_expectedVersion hlt.le
  have happend := appendEvents_of_conflict json
    (a := commitArguments context (beforeCommit context s₁ thrown)) hcommand hlt.le
    (zrevrange_of_represents hst.represents hbs) hne
  rw [if_neg (by exact hlt.ne')] at happend
  refine ⟨(beforeCommit context s₁ thrown).rollback, rfl, ?_⟩
  simp only [attempt, hbegin, hrun]
  rw [commitStores_of_append happend]
  simp [settle, hchanged, MemoryEffect.apply]

/-- A command whose handler throws, as far as its own stores go. -/
theorem consumeMessage_iff (context : CommandContext) (hst : StoresOf type json context.key bs st)
    (hthrows : handler.AlwaysThrows)
    (hcommand : st.redis (aggregateCommandKey context.key context.messageId) = none) :
    LeavesNoTrace st.redis context.key (lastRun type json context.key handler st).2
        (consumeMessage type json context handler st) ↔
      LeavesNoEvents st.redis context (lastRun type json context.key handler st).1 := by
  unfold lastRun consumeMessage
  split
  · next hconflicts =>
    have hst' : StoresOf type json context.key bs
        { st with memory := Function.update st.memory context.key none } :=
      ⟨hst.represents, hst.versioned, by simp, hst.snapshots⟩
    obtain ⟨s', hbegin, hattempt⟩ := attempt_of_conflicts (s := .new) rfl hst hcommand hconflicts
    have hsecond := processAsync_iff (retryLimit - 1) hbegin hst' hthrows hcommand
      (not_conflicts_of_memory hst' (by simp))
    rw [show retryLimit = (retryLimit - 1) + 1 from rfl]
    unfold processAsync
    rw [hattempt]
    exact hsecond
  · next hconflicts => exact processAsync_iff retryLimit rfl hst hthrows hcommand hconflicts

/-- A command whose handler throws, in a reachable state in which it has not been handled, leaves no
trace exactly when the last run of its handler has left no events; or only events of an aggregate
that it has added and that the event store refuses. The aggregate has fewer than `2^31 - 1`
batches. -/
theorem leaves_no_trace_iff {keyOf : String → String} {as : List (Action S P R)}
    {s : State S P R T} (hrun : Machine.run (step type json keyOf) .init as = some s)
    (processor : Nat) (commandId : String) (replyToEndPoint : Option String)
    (sagaInfo : Option SagaInfo) (handler : Handler S P R) (hthrows : handler.AlwaysThrows)
    (hnew : s.redis (aggregateCommandKey (keyOf commandId) commandId) = none) :
    LeavesNoTrace s.redis (keyOf commandId)
        (lastRun type json (keyOf commandId) handler
          ⟨s.redis, s.snapshots, s.memory processor⟩).2
        (consumeMessage type json ⟨commandId, keyOf commandId, replyToEndPoint, sagaInfo⟩ handler
          ⟨s.redis, s.snapshots, s.memory processor⟩) ↔
      LeavesNoEvents s.redis ⟨commandId, keyOf commandId, replyToEndPoint, sagaInfo⟩
        (lastRun type json (keyOf commandId) handler
          ⟨s.redis, s.snapshots, s.memory processor⟩).1 := by
  have hst := (coherent_of_run hrun).stores processor (keyOf commandId)
  exact consumeMessage_iff ⟨commandId, keyOf commandId, replyToEndPoint, sagaInfo⟩ hst hthrows hnew

/-- A command has added the aggregate with the event `5`. The handler of a second one adds it again,
raises the event `7` and throws; the event store refuses it. -/
theorem leaves_no_trace_of_refused_add :
    ∃ s, Machine.run (step (⟨0, fun n e => n + e.payload⟩ : AggregateType Nat Nat)
        (Json.plain Nat Nat) fun _ => "k") .init
        [.deliver 0 "c" none none, .attempt 0 (.call .add (.call (.onEvent 5) .return)), .work 0,
          .work 0, .work 0, .work 0, .work 0] = some s ∧
      streamOf s.redis "k" = [(1, [(Json.plain Nat Nat).ofEvent ⟨1, 5⟩])] ∧
      LeavesNoTrace s.redis "k" (some (.domain (.code 1) "m" (some ⟨0, 3⟩)))
        (consumeMessage (R := Nat) ⟨0, fun n e => n + e.payload⟩ (Json.plain Nat Nat)
          ⟨"c'", "k", none, none⟩
          (.call .add (.call (.onEvent 7) (.throw (.domain (.code 1) "m" (some ⟨0, 3⟩)))))
          ⟨s.redis, s.snapshots, s.memory 0⟩) := by
  refine ⟨_, rfl, rfl, ?_⟩
  have hrun : Machine.run (step (⟨0, fun n e => n + e.payload⟩ : AggregateType Nat Nat)
      (Json.plain Nat Nat) fun _ => "k") .init
      [.deliver 0 "c" none none, .attempt 0 (.call .add (.call (.onEvent 5) .return)), .work 0,
        .work 0, .work 0, .work 0, .work 0] = some _ := rfl
  exact (leaves_no_trace_iff hrun 0 "c'" none none
    (.call .add (.call (.onEvent 7) (.throw (.domain (.code 1) "m" (some ⟨0, 3⟩)))))
    trivial rfl).2 (.inr ⟨rfl, .inl (List.cons_ne_nil _ _)⟩)

/-- A handler adds an aggregate, raises the event `5` on it, publishes the event `9` and throws: the
event `5` is stored, and both are sent. -/
theorem trace_of_failed_command :
    ∃ handler : Handler Nat Nat Nat, handler.AlwaysThrows ∧
      streamOf (consumeMessage ⟨0, fun n e => n + e.payload⟩ (Json.plain Nat Nat)
        ⟨"c", "k", none, none⟩ handler ⟨fun _ => none, fun _ => none, fun _ => none⟩).1.redis "k" =
          [(1, [(Json.plain Nat Nat).ofEvent ⟨1, 5⟩])] ∧
      (consumeMessage ⟨0, fun n e => n + e.payload⟩ (Json.plain Nat Nat) ⟨"c", "k", none, none⟩
        handler ⟨fun _ => none, fun _ => none, fun _ => none⟩).2.filterMap Message.event? =
          [⟨0, 9⟩, ⟨1, 5⟩] ∧
      ∀ thrown, ¬LeavesNoTrace (fun _ => none) "k" thrown
        (consumeMessage ⟨0, fun n e => n + e.payload⟩ (Json.plain Nat Nat) ⟨"c", "k", none, none⟩
          handler ⟨fun _ => none, fun _ => none, fun _ => none⟩) := by
  refine ⟨.call .add (.call (.onEvent 5) (.call (.publish ⟨0, 9⟩)
    (.throw (.other "m" "m")))), trivial, rfl, rfl, ?_⟩
  rintro thrown ⟨hstream, -, -⟩
  cases hstream

end Failure

end IFramework.EventSourcing
