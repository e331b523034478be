import IFramework.MessageQueue.SlidingDoor

/-!
# The callback of the Kafka consumer

A polled record passes four layers: `_consumer_OnMessage` adds its offset to the sliding door of its
partition, the delegate of the client provider builds a message context, `OnMessagesReceived` of the
command processor hands the context over to the message processor or, when that throws, commits
the offset itself, and the `catch` of the callback finishes the offset of whatever still throws.

That last `catch` tests the value of the record first. `onMessage_settles_iff` says which records
are handed over or finished when the callback is done, and `pending_owned` that, as long as only
such records arrive, every pending offset of the consumer has a task that is going to commit it.

The broker of a message offset is `null` here, which `IsNull` does not tell from the empty string.
-/

namespace IFramework.MessageQueue

open Machine

/-! ## Doors -/

namespace SlidingDoor

theorem removeOffset_commitPerMessage (door : SlidingDoor) (m : MessageOffset) :
    (door.removeOffset m).1.commitPerMessage = door.commitPerMessage := by
  unfold removeOffset
  split
  · rfl
  · split
    · split
      · rfl
      · simp
    · simp

/-- What is removed is no longer pending, also when `RemoveOffset` throws. -/
theorem removeOffset_offsets (door : SlidingDoor) (m : MessageOffset)
    (hper : door.commitPerMessage = false) :
    (door.removeOffset m).1.offsets = door.offsets.erase m.offset := by
  unfold removeOffset
  rw [if_neg (by simp [hper])]
  split
  · split
    · rfl
    · simp
  · next hmem => simp [Finset.erase_eq_of_notMem hmem]

end SlidingDoor

/-- A door of a consumer: one that commits each message for itself has no pending offsets. -/
def Door : Type := {door : SlidingDoor // door.commitPerMessage = true → door.offsets = ∅}

namespace Door

def new (commitPerMessage : Bool) : Door := ⟨.new commitPerMessage, fun _ => rfl⟩

def addOffset (door : Door) (offset : Int) : Door :=
  ⟨door.1.addOffset offset, by
    have hdoor := door.2
    unfold SlidingDoor.addOffset
    split
    · next hper => simp_all
    · exact hdoor⟩

def removeOffset (door : Door) (m : MessageOffset) : Door × SlidingDoor.RemoveOutcome :=
  (⟨(door.1.removeOffset m).1, by
    rw [SlidingDoor.removeOffset_commitPerMessage]
    intro hper
    simpa [SlidingDoor.removeOffset, hper] using door.2 hper⟩, (door.1.removeOffset m).2)

theorem mem_addOffset {door : Door} {offset o : Int} (h : o ∈ (door.addOffset offset).1.offsets) :
    o = offset ∨ o ∈ door.1.offsets := by
  unfold addOffset SlidingDoor.addOffset at h
  simp only at h
  split at h
  · exact Finset.mem_insert.1 h
  · exact .inr h

theorem mem_removeOffset {door : Door} {m : MessageOffset} {o : Int} :
    o ∈ (door.removeOffset m).1.1.offsets ↔ o ≠ m.offset ∧ o ∈ door.1.offsets := by
  unfold removeOffset
  cases hper : door.1.commitPerMessage with
  | true => simp [SlidingDoor.removeOffset, hper, door.2 hper]
  | false => rw [SlidingDoor.removeOffset_offsets _ _ hper, Finset.mem_erase]

end Door

/-! ## Records, contexts and the command processor -/

/-- A polled record. -/
structure ConsumeResult where
  topic : String
  partition : Int
  offset : Int
  key : Option String
  value : Option String
  deriving DecidableEq, Repr

/-- The exceptions of the callback. -/
inductive Failure where
  | operationCanceledException
  | threadAbortException
  | nullReferenceException
  | argumentException
  | exception (message : String)
  deriving DecidableEq, Repr

/-- The exceptions that the callback swallows. -/
def Failure.isCancellation : Failure → Bool
  | operationCanceledException => true
  | threadAbortException => true
  | _ => false

/-- The message offset of a record. -/
def ConsumeResult.messageOffset (r : ConsumeResult) : MessageOffset where
  broker := ""
  topic := r.topic
  partition := r.partition
  offset := r.offset

/-- `GetSlidingDoorKey`. -/
def getSlidingDoorKey (topic : String) (partition : Int) : String :=
  topic ++ "." ++ toString partition

def MessageOffset.slidingDoorKey (m : MessageOffset) : String :=
  getSlidingDoorKey m.topic m.partition

/-- A message context; the payload message is `null` when the value cannot be deserialized. -/
structure MessageContext (π : Type) where
  payloadMessage : Option π
  messageOffset : MessageOffset

/-- An `IKafkaMessageContextBuilder`, which may throw; a context it builds has the offset of the
record. -/
structure KafkaMessageContextBuilder (π : Type) where
  build : ConsumeResult → Except Failure (MessageContext π)
  build_messageOffset : ∀ r context, build r = .ok context → context.messageOffset = r.messageOffset

/-- The `DefaultKafkaMessageContextBuilder`; `ToJsonObject` answers `null` to what it cannot
read, and to `null`. -/
def defaultKafkaMessageContextBuilder {π : Type} (toJsonObject : String → Option π) :
    KafkaMessageContextBuilder π where
  build r := .ok ⟨r.value.bind toJsonObject, r.messageOffset⟩
  build_messageOffset r context h := by
    cases h
    rfl

/-- A command processor: `InternalConsumer` is `null` until the consumer has been started,
`keyHeader` is the header of a payload message, and `process` is `MessageProcessor.Process`, which
either takes the context or throws. -/
structure CommandProcessor (π : Type) where
  internalConsumer : Bool
  keyHeader : π → Option String
  process : Option String → MessageContext π → Except Failure Unit

variable {π : Type}

/-- `messageContext.Key`. -/
def CommandProcessor.key (p : CommandProcessor π) (context : MessageContext π) :
    Except Failure (Option String) :=
  match context.payloadMessage with
  | some payload => .ok (p.keyHeader payload)
  | none => .error .nullReferenceException

/-- The body of the `try` block: the key is read and the context handed over. -/
def CommandProcessor.handOver (p : CommandProcessor π) (context : MessageContext π) :
    Except Failure Unit := do
  let key ← p.key context
  p.process key context

/-! ## The consumer -/

/-- A consumer: the doors, the contexts whose tasks have not committed yet, and the offsets that
`FinishConsumingMessage` has passed to a door. -/
structure KafkaConsumer (π : Type) where
  commitPerMessage : Bool
  slidingDoors : String → Option Door
  inFlight : List (MessageContext π)
  finished : List MessageOffset

namespace KafkaConsumer

/-- A consumer that has polled nothing. -/
def init (commitPerMessage : Bool) : KafkaConsumer π := ⟨commitPerMessage, fun _ => none, [], []⟩

/-- `AddMessageOffset`. -/
def addMessageOffset (c : KafkaConsumer π) (topic : String) (partition offset : Int) :
    KafkaConsumer π :=
  let key := getSlidingDoorKey topic partition
  let slidingDoor := (c.slidingDoors key).getD (.new c.commitPerMessage)
  { c with slidingDoors := Function.update c.slidingDoors key (slidingDoor.addOffset offset) }

/-- `FinishConsumingMessage`, with what it throws. -/
def finishConsumingMessage (c : KafkaConsumer π) (m : MessageOffset) :
    KafkaConsumer π × Option Failure :=
  match c.slidingDoors m.slidingDoorKey with
  | none => (c, some (.exception "partition slidingDoor not exists"))
  | some slidingDoor =>
    let (slidingDoor, outcome) := slidingDoor.removeOffset m
    ({ c with
        slidingDoors := Function.update c.slidingDoors m.slidingDoorKey slidingDoor
        finished := c.finished ++ [m] },
      match outcome with
      | .returned _ => none
      | .argumentException => some .argumentException)

/-- `CommitOffset`. -/
def commitOffset (c : KafkaConsumer π) (context : MessageContext π) :
    KafkaConsumer π × Option Failure :=
  c.finishConsumingMessage context.messageOffset

/-- `CommandProcessor.OnMessagesReceived` for one context. -/
def onMessagesReceived (p : CommandProcessor π) (c : KafkaConsumer π) (context : MessageContext π) :
    KafkaConsumer π × Option Failure :=
  match p.handOver context with
  | .ok _ => ({ c with inFlight := c.inFlight ++ [context] }, none)
  | .error _ =>
    if p.internalConsumer then c.commitOffset context else (c, some .nullReferenceException)

/-- The delegate of `BuildOnKafkaMessageReceived`. -/
def onKafkaMessageReceived (builder : KafkaMessageContextBuilder π) (p : CommandProcessor π)
    (c : KafkaConsumer π) (r : ConsumeResult) : KafkaConsumer π × Option Failure :=
  match builder.build r with
  | .ok context => onMessagesReceived p c context
  | .error e => (c, some e)

/-- The `catch` blocks of `_consumer_OnMessage`. -/
def onFailure (c : KafkaConsumer π) (r : ConsumeResult) (e : Failure) :
    KafkaConsumer π × Option Failure :=
  if e.isCancellation then (c, none)
  else if r.value.isSome then c.finishConsumingMessage r.messageOffset
  else (c, none)

/-- `_consumer_OnMessage`, with what leaves it. -/
def onMessage (builder : KafkaMessageContextBuilder π) (p : CommandProcessor π)
    (c : KafkaConsumer π) (r : ConsumeResult) : KafkaConsumer π × Option Failure :=
  let c := c.addMessageOffset r.topic r.partition r.offset
  match onKafkaMessageReceived builder p c r with
  | (c, none) => (c, none)
  | (c, some e) => c.onFailure r e

/-! ## What is pending -/

/-- The offset is pending in the door of its partition. -/
def Pending (c : KafkaConsumer π) (m : MessageOffset) : Prop :=
  ∃ door, c.slidingDoors m.slidingDoorKey = some door ∧ m.offset ∈ door.1.offsets

/-- Two message offsets stand for one offset of one door. -/
def SameOffset (m m' : MessageOffset) : Prop :=
  m.slidingDoorKey = m'.slidingDoorKey ∧ m.offset = m'.offset

/-- What is pending after the offset of a record was added. -/
theorem pending_addMessageOffset {c : KafkaConsumer π} {r : ConsumeResult} {m : MessageOffset}
    (h : (c.addMessageOffset r.topic r.partition r.offset).Pending m) :
    SameOffset m r.messageOffset ∨ c.Pending m := by
  obtain ⟨door, hdoor, hmem⟩ := h
  by_cases hkey : m.slidingDoorKey = getSlidingDoorKey r.topic r.partition
  · simp only [addMessageOffset, hkey, Function.update_self, Option.some.injEq] at hdoor
    subst hdoor
    rcases Door.mem_addOffset hmem with heq | hold
    · exact .inl ⟨hkey, heq⟩
    · cases hprev : c.slidingDoors (getSlidingDoorKey r.topic r.partition) with
      | none =>
        rw [hprev] at hold
        exact absurd hold (Finset.notMem_empty _)
      | some door =>
        rw [hprev] at hold
        exact .inr ⟨door, by rw [hkey, hprev], hold⟩
  · simp only [addMessageOffset, Function.update_of_ne hkey] at hdoor
    exact .inr ⟨door, hdoor, hmem⟩

/-- Nothing else becomes pending when an offset is finished, and the offset is not pending any
more. -/
theorem pending_finishConsumingMessage {c : KafkaConsumer π} {m m' : MessageOffset}
    (h : (c.finishConsumingMessage m).1.Pending m') : ¬SameOffset m' m ∧ c.Pending m' := by
  obtain ⟨door, hdoor, hmem⟩ := h
  unfold finishConsumingMessage at hdoor
  split at hdoor
  · next hnone =>
    refine ⟨?_, door, hdoor, hmem⟩
    rintro ⟨hkey, -⟩
    rw [hkey, hnone] at hdoor
    cases hdoor
  · next door' hsome =>
    by_cases hkey : m'.slidingDoorKey = m.slidingDoorKey
    · simp only [hkey, Function.update_self, Option.some.injEq] at hdoor
      subst hdoor
      obtain ⟨hne, hold⟩ := Door.mem_removeOffset.1 hmem
      exact ⟨fun hsame => hne hsame.2, door', by rw [hkey, hsome], hold⟩
    · simp only [Function.update_of_ne hkey] at hdoor
      exact ⟨fun hsame => hkey hsame.1, door, hdoor, hmem⟩

@[simp] theorem inFlight_finishConsumingMessage (c : KafkaConsumer π) (m : MessageOffset) :
    (c.finishConsumingMessage m).1.inFlight = c.inFlight := by
  unfold finishConsumingMessage
  split <;> rfl

/-- There is a door for the offset. -/
def HasDoor (c : KafkaConsumer π) (m : MessageOffset) : Prop :=
  (c.slidingDoors m.slidingDoorKey).isSome

theorem hasDoor_addMessageOffset (c : KafkaConsumer π) (r : ConsumeResult) :
    (c.addMessageOffset r.topic r.partition r.offset).HasDoor r.messageOffset := by
  simp [HasDoor, addMessageOffset, MessageOffset.slidingDoorKey, ConsumeResult.messageOffset]

theorem HasDoor.finish {c : KafkaConsumer π} {m m' : MessageOffset} (h : c.HasDoor m) :
    (c.finishConsumingMessage m').1.HasDoor m := by
  unfold finishConsumingMessage
  split
  · exact h
  · by_cases hkey : m.slidingDoorKey = m'.slidingDoorKey
    · simp [HasDoor, hkey]
    · simpa [HasDoor, Function.update_of_ne hkey] using h

theorem HasDoor.finished_finish {c : KafkaConsumer π} {m : MessageOffset} (h : c.HasDoor m) :
    (c.finishConsumingMessage m).1.finished = c.finished ++ [m] := by
  unfold finishConsumingMessage
  split
  · next hnone => simp [HasDoor, hnone] at h
  · rfl

/-! ## What becomes of a record -/

/-- Between the two states the record was handed over, or it was finished and is not pending. -/
def Settled (c c' : KafkaConsumer π) (r : ConsumeResult) : Prop :=
  (∃ context, context.messageOffset = r.messageOffset ∧ c'.inFlight = c.inFlight ++ [context]) ∨
    (∃ ms, c'.finished = c.finished ++ ms ∧ r.messageOffset ∈ ms) ∧
      c'.inFlight = c.inFlight ∧ ¬c'.Pending r.messageOffset

/-- What throws beyond the command processor is no cancellation, and the record has a value. -/
def Handled (builder : KafkaMessageContextBuilder π) (p : CommandProcessor π)
    (r : ConsumeResult) : Prop :=
  match builder.build r with
  | .error e => e.isCancellation = false ∧ r.value ≠ none
  | .ok context =>
    (∃ e, p.handOver context = .error e) → p.internalConsumer = false → r.value ≠ none

theorem settled_finish {c c₀ : KafkaConsumer π} {r : ConsumeResult} (h : c.HasDoor r.messageOffset)
    (hfinished : ∃ ms, c.finished = c₀.finished ++ ms) (hinFlight : c.inFlight = c₀.inFlight) :
    Settled c₀ (c.finishConsumingMessage r.messageOffset).1 r := by
  obtain ⟨ms, hms⟩ := hfinished
  refine .inr ⟨⟨ms ++ [r.messageOffset], ?_, by simp⟩, by simp [hinFlight], ?_⟩
  · rw [h.finished_finish, hms, List.append_assoc]
  · intro hpending
    exact (pending_finishConsumingMessage hpending).1 ⟨rfl, rfl⟩

theorem not_settled (c : KafkaConsumer π) (r : ConsumeResult) :
    ¬Settled c (c.addMessageOffset r.topic r.partition r.offset) r := by
  rintro (⟨context, -, hinFlight⟩ | ⟨⟨ms, hfinished, hmem⟩, -⟩)
  · simp [addMessageOffset] at hinFlight
  · have hnil : ms = [] := by simpa [addMessageOffset] using hfinished
    rw [hnil] at hmem
    cases hmem

/-- The callback finishes a record for which nothing has been done. -/
theorem settled_onFailure_iff (c : KafkaConsumer π) (r : ConsumeResult) (e : Failure) :
    Settled c ((c.addMessageOffset r.topic r.partition r.offset).onFailure r e).1 r ↔
      e.isCancellation = false ∧ r.value ≠ none := by
  unfold onFailure
  split
  · next hcancel => exact iff_of_false (not_settled c r) (by simp [hcancel])
  · next hcancel =>
    split
    · next hvalue =>
      refine iff_of_true ?_ ⟨by simpa using hcancel, Option.isSome_iff_ne_none.1 hvalue⟩
      exact settled_finish (hasDoor_addMessageOffset c r) ⟨[], by simp [addMessageOffset]⟩ rfl
    · next hvalue => exact iff_of_false (not_settled c r) (by simp_all)

theorem settled_commitOffset {c : KafkaConsumer π} {r : ConsumeResult} {context : MessageContext π}
    (h : context.messageOffset = r.messageOffset) :
    let c₁ := c.addMessageOffset r.topic r.partition r.offset
    Settled c (c₁.commitOffset context).1 r ∧
      ∀ e, Settled c ((c₁.commitOffset context).1.onFailure r e).1 r := by
  have hdoor := hasDoor_addMessageOffset c r
  have hdone : Settled c
      ((c.addMessageOffset r.topic r.partition r.offset).commitOffset context).1 r := by
    rw [commitOffset, h]
    exact settled_finish hdoor ⟨[], by simp [addMessageOffset]⟩ rfl
  refine ⟨hdone, ?_⟩
  intro e
  unfold onFailure
  split
  · exact hdone
  · split
    · rw [commitOffset, h]
      refine settled_finish hdoor.finish ⟨[r.messageOffset], ?_⟩ ?_
      · rw [hdoor.finished_finish]
        rfl
      · rw [inFlight_finishConsumingMessage]
        rfl
    · exact hdone

/-- A record that is handled is handed over, or finished by the processor or by the callback. -/
theorem Handled.settled {builder : KafkaMessageContextBuilder π} {p : CommandProcessor π}
    {r : ConsumeResult} (h : Handled builder p r) (c : KafkaConsumer π) :
    Settled c (onMessage builder p c r).1 r := by
  unfold Handled at h
  unfold onMessage onKafkaMessageReceived
  cases hbuild : builder.build r with
  | error e =>
    rw [hbuild] at h
    exact (settled_onFailure_iff c r e).2 h
  | ok context =>
    rw [hbuild] at h
    have hoffset := builder.build_messageOffset r context hbuild
    simp only [onMessagesReceived]
    cases hhand : p.handOver context with
    | ok u => exact .inl ⟨context, hoffset, rfl⟩
    | error e =>
      cases hconsumer : p.internalConsumer with
      | false =>
        have hvalue := h ⟨e, hhand⟩ hconsumer
        exact (settled_onFailure_iff c r .nullReferenceException).2 ⟨rfl, hvalue⟩
      | true =>
        obtain ⟨hdone, hagain⟩ := settled_commitOffset (c := c) hoffset
        simp only [if_true]
        split
        · next hcommit => simpa [hcommit] using hdone
        · next e hcommit => simpa [hcommit] using hagain e

theorem not_settled_of_not_handled {builder : KafkaMessageContextBuilder π}
    {p : CommandProcessor π} {r : ConsumeResult} (h : ¬Handled builder p r)
    (c : KafkaConsumer π) : ¬Settled c (onMessage builder p c r).1 r := by
  unfold Handled at h
  unfold onMessage onKafkaMessageReceived
  cases hbuild : builder.build r with
  | error e =>
    rw [hbuild] at h
    exact (settled_onFailure_iff c r e).not.2 h
  | ok context =>
    simp only [hbuild, Classical.not_imp] at h
    obtain ⟨⟨e, hhand⟩, hconsumer, hvalue⟩ := h
    simp only [onMessagesReceived, hhand, hconsumer, Bool.false_eq_true, if_false]
    exact (settled_onFailure_iff c r .nullReferenceException).not.2 fun hall => hvalue hall.2

/-- When the callback is done, a record has been handed over or finished exactly if what throws
beyond the command processor is no cancellation, and the record has a value. -/
theorem onMessage_settles_iff (builder : KafkaMessageContextBuilder π) (p : CommandProcessor π)
    (c : KafkaConsumer π) (r : ConsumeResult) :
    Settled c (onMessage builder p c r).1 r ↔ Handled builder p r := by
  constructor
  · intro hsettled
    by_contra hnot
    exact not_settled_of_not_handled hnot c hsettled
  · intro hhandled
    exact hhandled.settled c

/-- The default builder throws on no record, so that a processor with a consumer handles all. -/
theorem handled_of_default (toJsonObject : String → Option π) {p : CommandProcessor π}
    (h : p.internalConsumer = true) (r : ConsumeResult) :
    Handled (defaultKafkaMessageContextBuilder toJsonObject) p r := by
  simp [Handled, defaultKafkaMessageContextBuilder, h]

/-- A builder that reads the value throws on a record that has none. -/
def valueBuilder : KafkaMessageContextBuilder String where
  build r :=
    match r.value with
    | some value => .ok ⟨some value, r.messageOffset⟩
    | none => .error .nullReferenceException
  build_messageOffset r context h := by
    cases hvalue : r.value with
    | none => simp [hvalue] at h
    | some value =>
      simp only [hvalue, Except.ok.injEq] at h
      exact congrArg MessageContext.messageOffset h.symm

/-- A started processor that takes every context. -/
def idleProcessor : CommandProcessor String := ⟨true, some, fun _ _ => .ok ()⟩

/-- The record of a deleted key is neither handed over nor finished, and its offset stays
pending. -/
theorem orphaned_without_value :
    let r : ConsumeResult := ⟨"command", 0, 7, some "k", none⟩
    let c := (onMessage valueBuilder idleProcessor (.init false) r).1
    ¬Settled (.init false) c r ∧ c.Pending r.messageOffset ∧ c.inFlight = [] ∧ c.finished = [] := by
  refine ⟨?_, ⟨(Door.new false).addOffset 7, rfl, ?_⟩, rfl, rfl⟩
  · rintro (⟨context, -, hinFlight⟩ | ⟨⟨ms, hfinished, hmem⟩, -⟩)
    · simp [init, onMessage, onKafkaMessageReceived, valueBuilder, onFailure, addMessageOffset,
        Failure.isCancellation] at hinFlight
    · have hnil : ms = [] := (List.nil_append ms).symm.trans hfinished.symm
      rw [hnil] at hmem
      cases hmem
  · decide

/-! ## Runs -/

/-- A record is polled, or a task that was started for a context commits. -/
inductive Action where
  | poll (r : ConsumeResult)
  | commit (i : Nat)

def step (builder : KafkaMessageContextBuilder π) (p : CommandProcessor π)
    (c : KafkaConsumer π) : Action → Option (KafkaConsumer π)
  | .poll r => some (onMessage builder p c r).1
  | .commit i =>
    match c.inFlight[i]? with
    | none => none
    | some context => some ({ c with inFlight := c.inFlight.eraseIdx i }.commitOffset context).1

/-- A record that is polled is handled. -/
def PollsHandled (builder : KafkaMessageContextBuilder π) (p : CommandProcessor π)
    (_ : KafkaConsumer π) : Action → Prop
  | .poll r => Handled builder p r
  | .commit _ => True

/-- Each pending offset has a task that commits it. -/
def Owned (c : KafkaConsumer π) : Prop :=
  ∀ m, c.Pending m → ∃ context ∈ c.inFlight, SameOffset m context.messageOffset

theorem Pending.congr {c : KafkaConsumer π} {m m' : MessageOffset} (h : c.Pending m)
    (hsame : SameOffset m m') : c.Pending m' := by
  obtain ⟨door, hdoor, hmem⟩ := h
  exact ⟨door, hsame.1 ▸ hdoor, hsame.2 ▸ hmem⟩

theorem pending_onFailure {c : KafkaConsumer π} {r : ConsumeResult} {e : Failure}
    {m : MessageOffset} (h : (c.onFailure r e).1.Pending m) : c.Pending m := by
  unfold onFailure at h
  split at h
  · exact h
  · split at h
    · exact (pending_finishConsumingMessage h).2
    · exact h

theorem pending_onKafkaMessageReceived {builder : KafkaMessageContextBuilder π}
    {p : CommandProcessor π} {c : KafkaConsumer π} {r : ConsumeResult} {m : MessageOffset}
    (h : (onKafkaMessageReceived builder p c r).1.Pending m) : c.Pending m := by
  unfold onKafkaMessageReceived at h
  split at h
  · unfold onMessagesReceived at h
    split at h
    · exact h
    · split at h
      · exact (pending_finishConsumingMessage h).2
      · exact h
  · exact h

/-- The callback makes only the offset of its record pending. -/
theorem pending_onMessage {builder : KafkaMessageContextBuilder π} {p : CommandProcessor π}
    {c : KafkaConsumer π} {r : ConsumeResult} {m : MessageOffset}
    (h : (onMessage builder p c r).1.Pending m) : SameOffset m r.messageOffset ∨ c.Pending m := by
  let c₁ := c.addMessageOffset r.topic r.partition r.offset
  have hreceive : (onKafkaMessageReceived builder p c₁ r).1.Pending m := by
    simp only [onMessage] at h
    split at h
    · next hreceived => rwa [hreceived]
    · next hreceived =>
      rw [hreceived]
      exact pending_onFailure h
  apply pending_addMessageOffset
  exact pending_onKafkaMessageReceived hreceive

theorem Owned.poll {builder : KafkaMessageContextBuilder π} {p : CommandProcessor π}
    {c : KafkaConsumer π} (h : Owned c) {r : ConsumeResult} (hr : Handled builder p r) :
    Owned (onMessage builder p c r).1 := by
  intro m hm
  rcases hr.settled c with
    ⟨context, hoffset, hinFlight⟩ | ⟨-, hinFlight, hdone⟩
  · rw [hinFlight]
    rcases pending_onMessage hm with hsame | hold
    · exact ⟨context, by simp, hoffset ▸ hsame⟩
    · obtain ⟨context', hmem, hsame⟩ := h m hold
      exact ⟨context', List.mem_append_left _ hmem, hsame⟩
  · rw [hinFlight]
    rcases pending_onMessage hm with hsame | hold
    · exact absurd (hm.congr hsame) hdone
    · exact h m hold

theorem Owned.commit {c : KafkaConsumer π} (h : Owned c) {i : Nat} {context : MessageContext π}
    (hcontext : c.inFlight[i]? = some context) :
    Owned ({ c with inFlight := c.inFlight.eraseIdx i }.commitOffset context).1 := by
  intro m hm
  obtain ⟨hother, hpending⟩ := pending_finishConsumingMessage hm
  obtain ⟨context', hmem, hsame⟩ := h m hpending
  refine ⟨context', ?_, hsame⟩
  rw [commitOffset, inFlight_finishConsumingMessage, List.mem_eraseIdx_iff_getElem?]
  obtain ⟨j, hj⟩ := List.mem_iff_getElem?.1 hmem
  refine ⟨j, ?_, hj⟩
  rintro rfl
  cases hcontext.symm.trans hj
  exact hother hsame

/-- As long as every record that is polled is handled, every pending offset has a task that is
going to commit it. -/
theorem pending_owned {builder : KafkaMessageContextBuilder π} {p : CommandProcessor π}
    {commitPerMessage : Bool} {actions : List Action} {c : KafkaConsumer π}
    (hhandled : Along (step builder p) (PollsHandled builder p) (.init commitPerMessage) actions)
    (hrun : run (step builder p) (.init commitPerMessage) actions = some c) : Owned c := by
  refine Along.invariant Owned ?_ ?_ hhandled hrun
  · intro c a c' h ha hstep
    cases a with
    | poll r =>
      cases hstep
      exact h.poll ha
    | commit i =>
      simp only [step] at hstep
      split at hstep
      · cases hstep
      · next hcontext =>
        cases hstep
        exact h.commit hcontext
  · rintro m ⟨door, hdoor, -⟩
    cases hdoor

end KafkaConsumer

end IFramework.MessageQueue
