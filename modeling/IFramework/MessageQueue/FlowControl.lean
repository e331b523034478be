import IFramework.MessageQueue.KafkaConsumer
import Mathlib.Algebra.BigOperators.Group.Finset.Sigma
import Mathlib.Data.Finset.Sigma

/-!
# Flow control

`ReceiveMessages` polls one record after the other. After a poll that does not throw,
`BlockIfFullLoad` adds up what is pending in the doors, and polls nothing while that is above
`FullLoadThreshold`. The tasks of the records commit meanwhile. The doors are not added up in one
atomic step in the source; as only this loop adds offsets, what it finds is never less than what is
pending when it has finished. `WaitInterval` is not negative: below `-1` `Task.Delay` throws, so that
the loop does not block, and at `-1` it never ends.

The records that are being handled are no more than the threshold and one, as long as none is polled
again while it is being handled, if the doors do not commit each message for itself
(`inFlight_bounded_iff`): a door that does has nothing pending. A record that is neither handed over
nor finished stays pending for good, and when there are more of these than the threshold, nothing is
polled any more (`resumes_iff`).
-/

namespace IFramework.MessageQueue

open Machine KafkaConsumer

variable {π : Type}

namespace Door

theorem mem_addOffset_of_mem {door : Door} {offset o : Int} (h : o ∈ door.1.offsets) :
    o ∈ (door.addOffset offset).1.offsets := by
  unfold addOffset SlidingDoor.addOffset
  simp only
  split
  · exact Finset.mem_insert_of_mem h
  · exact h

theorem self_mem_addOffset {door : Door} {offset : Int} (h : door.1.commitPerMessage = false) :
    offset ∈ (door.addOffset offset).1.offsets := by
  unfold addOffset SlidingDoor.addOffset
  simp [h]

theorem addOffset_commitPerMessage (door : Door) (offset : Int) :
    (door.addOffset offset).1.commitPerMessage = door.1.commitPerMessage := by
  unfold addOffset SlidingDoor.addOffset
  simp only
  split <;> rfl

end Door

/-! ## What one callback does to what is pending -/

namespace KafkaConsumer

theorem Pending.addMessageOffset {c : KafkaConsumer π} {m : MessageOffset} (h : c.Pending m)
    (topic : String) (partition offset : Int) :
    (c.addMessageOffset topic partition offset).Pending m := by
  obtain ⟨door, hdoor, hmem⟩ := h
  by_cases hkey : m.slidingDoorKey = getSlidingDoorKey topic partition
  · refine ⟨door.addOffset offset, ?_, Door.mem_addOffset_of_mem hmem⟩
    rw [hkey] at hdoor ⊢
    simp [KafkaConsumer.addMessageOffset, hdoor]
  · exact ⟨door, by simp [KafkaConsumer.addMessageOffset, Function.update_of_ne hkey, hdoor], hmem⟩

theorem Pending.finish {c : KafkaConsumer π} {m m' : MessageOffset} (h : c.Pending m')
    (hne : ¬SameOffset m' m) : (c.finishConsumingMessage m).1.Pending m' := by
  obtain ⟨door, hdoor, hmem⟩ := h
  unfold finishConsumingMessage
  split
  · exact ⟨door, hdoor, hmem⟩
  · next door' hsome =>
    by_cases hkey : m'.slidingDoorKey = m.slidingDoorKey
    · obtain rfl : door' = door := Option.some.inj (hsome.symm.trans (hkey ▸ hdoor))
      refine ⟨(door'.removeOffset m).1, by simp [hkey], Door.mem_removeOffset.2 ⟨?_, hmem⟩⟩
      exact fun hoffset => hne ⟨hkey, hoffset⟩
    · exact ⟨door, by simp [Function.update_of_ne hkey, hdoor], hmem⟩

/-- What the callback does behind `AddMessageOffset`: the record is handed over, it is left alone, or
it is finished, once or twice. What leaves the callback was thrown when it was finished. -/
theorem onMessage_cases (builder : KafkaMessageContextBuilder π) (p : CommandProcessor π)
    (c : KafkaConsumer π) (r : ConsumeResult) :
    let c₁ := c.addMessageOffset r.topic r.partition r.offset
    let c₂ := (c₁.finishConsumingMessage r.messageOffset).1
    (∃ context, context.messageOffset = r.messageOffset ∧
        onMessage builder p c r = ({ c₁ with inFlight := c₁.inFlight ++ [context] }, none)) ∨
      onMessage builder p c r = (c₁, none) ∨
      ∃ c' e, (c' = c₁ ∨ c' = c₂) ∧
        onMessage builder p c r = ((c'.finishConsumingMessage r.messageOffset).1, e) := by
  intro c₁ c₂
  have hfail : ∀ e, c₁.onFailure r e = (c₁, none) ∨ ∃ e', c₁.onFailure r e = (c₂, e') := by
    intro e
    unfold onFailure
    split
    · exact .inl rfl
    · split
      · exact .inr ⟨_, rfl⟩
      · exact .inl rfl
  unfold onMessage onKafkaMessageReceived
  cases hbuild : builder.build r with
  | error e =>
    rcases hfail e with h | ⟨e', h⟩
    · exact .inr (.inl h)
    · exact .inr (.inr ⟨c₁, e', .inl rfl, h⟩)
  | ok context =>
    have hoffset := builder.build_messageOffset r context hbuild
    simp only [onMessagesReceived]
    cases hhand : p.handOver context with
    | ok u => exact .inl ⟨context, hoffset, rfl⟩
    | error e =>
      cases hconsumer : p.internalConsumer with
      | false =>
        rcases hfail .nullReferenceException with h | ⟨e', h⟩
        · exact .inr (.inl h)
        · exact .inr (.inr ⟨c₁, e', .inl rfl, h⟩)
      | true =>
        simp only [if_true, commitOffset, hoffset]
        cases hfinish : c₁.finishConsumingMessage r.messageOffset with
        | mk c₂' e' =>
          have hc₂ : c₂ = c₂' := congrArg Prod.fst hfinish
          subst hc₂
          refine .inr (.inr ?_)
          cases e' with
          | none => exact ⟨c₁, none, .inl rfl, by simp [hfinish]⟩
          | some e' =>
            have hagain : ∃ c' e'', (c' = c₁ ∨ c' = c₂) ∧
                c₂.onFailure r e' = ((c'.finishConsumingMessage r.messageOffset).1, e'') := by
              unfold onFailure
              split
              · exact ⟨c₁, none, .inl rfl, rfl⟩
              · split
                · exact ⟨c₂, _, .inr rfl, rfl⟩
                · exact ⟨c₁, none, .inl rfl, rfl⟩
            obtain ⟨c', e'', hc', h⟩ := hagain
            exact ⟨c', e'', hc', by simpa [c₁, hfinish] using h⟩

theorem pending_messageOffset {c : KafkaConsumer π} {r : ConsumeResult}
    (hdoors : ∀ key door, c.slidingDoors key = some door → door.1.commitPerMessage = false)
    (hper : c.commitPerMessage = false) :
    (c.addMessageOffset r.topic r.partition r.offset).Pending r.messageOffset := by
  cases hdoor : c.slidingDoors (getSlidingDoorKey r.topic r.partition) with
  | none =>
    exact ⟨(Door.new c.commitPerMessage).addOffset r.offset,
      by simp [addMessageOffset, MessageOffset.slidingDoorKey, ConsumeResult.messageOffset, hdoor],
      Door.self_mem_addOffset (by simpa [Door.new, SlidingDoor.new] using hper)⟩
  | some door =>
    exact ⟨door.addOffset r.offset,
      by simp [addMessageOffset, MessageOffset.slidingDoorKey, ConsumeResult.messageOffset, hdoor],
      Door.self_mem_addOffset (hdoors _ _ hdoor)⟩

end KafkaConsumer

/-! ## The loop -/

/-- A consumer with its loop. -/
structure Receiver (π : Type) where
  consumer : KafkaConsumer π
  /-- The keys of `SlidingDoors`. -/
  keys : Finset String
  /-- The loop is in `BlockIfFullLoad`. -/
  blocked : Bool

inductive Receiver.Action where
  /-- A record is consumed and passed to the callback. -/
  | poll (r : ConsumeResult)
  /-- There is no record, or `Consume` throws. -/
  | consume (throws : Bool)
  /-- The doors are added up. -/
  | check
  /-- The task of a context commits. -/
  | commit (i : Nat)

namespace Receiver

def init (commitPerMessage : Bool) : Receiver π := ⟨.init commitPerMessage, ∅, false⟩

/-- `SlidingDoors.Sum(d => d.Value.MessageCount)`. -/
def remainMessageCount (s : Receiver π) : Nat :=
  ∑ key ∈ s.keys, (s.consumer.slidingDoors key).elim 0 fun door => door.1.messageCount

/-- `PollMessages` with a record, and the way on to `BlockIfFullLoad` if nothing is thrown. -/
def pollMessages (builder : KafkaMessageContextBuilder π) (p : CommandProcessor π) (s : Receiver π)
    (r : ConsumeResult) : Receiver π :=
  let (consumer, failure) := onMessage builder p s.consumer r
  ⟨consumer, insert (getSlidingDoorKey r.topic r.partition) s.keys, failure.isNone⟩

/-- The task of a context commits. -/
def commitOffset (s : Receiver π) (i : Nat) (context : MessageContext π) : Receiver π :=
  let consumer := { s.consumer with inFlight := s.consumer.inFlight.eraseIdx i }
  { s with consumer := (consumer.commitOffset context).1 }

def step (builder : KafkaMessageContextBuilder π) (p : CommandProcessor π) (fullLoadThreshold : Int)
    (s : Receiver π) : Action → Option (Receiver π)
  | .poll r => if s.blocked then none else some (s.pollMessages builder p r)
  | .consume throws => if s.blocked then none else some { s with blocked := !throws }
  | .check =>
    if s.blocked then some { s with blocked := fullLoadThreshold < s.remainMessageCount } else none
  | .commit i => s.consumer.inFlight[i]?.map fun context => s.commitOffset i context

/-- The offsets of a door that are pending. -/
def offsets (c : KafkaConsumer π) (key : String) : Finset Int :=
  (c.slidingDoors key).elim ∅ fun door => door.1.offsets

/-- All offsets that are pending, with the keys of their doors. -/
def pendings (s : Receiver π) : Finset (Σ _ : String, Int) := s.keys.sigma (offsets s.consumer)

/-- Where an offset is pending. -/
def place (m : MessageOffset) : Σ _ : String, Int := ⟨m.slidingDoorKey, m.offset⟩

theorem place_eq_iff {m m' : MessageOffset} : place m = place m' ↔ SameOffset m m' := by
  simp [place, SameOffset]

/-- What the doors add up to is the number of offsets that are pending. -/
theorem card_pendings (s : Receiver π) : s.pendings.card = s.remainMessageCount := by
  rw [pendings, Finset.card_sigma, remainMessageCount]
  refine Finset.sum_congr rfl fun key _ => ?_
  unfold offsets
  cases s.consumer.slidingDoors key <;> rfl

/-! ## What is pending in the loop -/

/-- The keys are those of the doors. -/
structure WellFormed (s : Receiver π) : Prop where
  named : ∀ key ∈ s.keys, ∃ topic partition, key = getSlidingDoorKey topic partition
  doors : ∀ key door, s.consumer.slidingDoors key = some door →
    key ∈ s.keys ∧ door.1.commitPerMessage = s.consumer.commitPerMessage

theorem wellFormed_init (commitPerMessage : Bool) :
    (init commitPerMessage : Receiver π).WellFormed where
  named := by simp [init]
  doors := by simp [init, KafkaConsumer.init]

variable {s s' : Receiver π}

theorem WellFormed.mem_pendings (h : s.WellFormed) {m : MessageOffset} :
    place m ∈ s.pendings ↔ s.consumer.Pending m := by
  simp only [pendings, place, Finset.mem_sigma, offsets]
  constructor
  · rintro ⟨-, hmem⟩
    cases hdoor : s.consumer.slidingDoors m.slidingDoorKey with
    | none => simp [hdoor] at hmem
    | some door => exact ⟨door, hdoor, by simpa [hdoor] using hmem⟩
  · rintro ⟨door, hdoor, hmem⟩
    exact ⟨(h.doors _ _ hdoor).1, by simpa [hdoor] using hmem⟩

/-- All that is pending was added for some record. -/
theorem WellFormed.exists_place (h : s.WellFormed) {x : Σ _ : String, Int} (hx : x ∈ s.pendings) :
    ∃ m, place m = x ∧ s.consumer.Pending m := by
  obtain ⟨key, offset⟩ := x
  obtain ⟨topic, partition, rfl⟩ := h.named key (Finset.mem_sigma.1 hx).1
  exact ⟨⟨"", topic, partition, offset⟩, rfl, h.mem_pendings.1 hx⟩

theorem WellFormed.addMessageOffset (h : s.WellFormed) (r : ConsumeResult) (blocked : Bool) :
    WellFormed ⟨s.consumer.addMessageOffset r.topic r.partition r.offset,
      insert (getSlidingDoorKey r.topic r.partition) s.keys, blocked⟩ where
  named key hkey := by
    rcases Finset.mem_insert.1 hkey with rfl | hkey
    · exact ⟨_, _, rfl⟩
    · exact h.named key hkey
  doors key door hdoor := by
    by_cases hkey : key = getSlidingDoorKey r.topic r.partition
    · refine ⟨Finset.mem_insert.2 (.inl hkey), ?_⟩
      subst hkey
      simp only [KafkaConsumer.addMessageOffset, Function.update_self, Option.some.injEq] at hdoor
      subst hdoor
      rw [Door.addOffset_commitPerMessage]
      cases hold : s.consumer.slidingDoors (getSlidingDoorKey r.topic r.partition) with
      | none => rfl
      | some door => exact (h.doors _ _ hold).2
    · simp only [KafkaConsumer.addMessageOffset, Function.update_of_ne hkey] at hdoor
      obtain ⟨hmem, hper⟩ := h.doors key door hdoor
      exact ⟨Finset.mem_insert_of_mem hmem, hper⟩

theorem WellFormed.finish {c : KafkaConsumer π} {keys : Finset String} {blocked : Bool}
    (h : WellFormed ⟨c, keys, blocked⟩) (m : MessageOffset) :
    WellFormed ⟨(c.finishConsumingMessage m).1, keys, blocked⟩ where
  named := h.named
  doors key door hdoor := by
    simp only at hdoor ⊢
    unfold finishConsumingMessage at hdoor ⊢
    split at hdoor
    · exact h.doors key door hdoor
    · next door' hsome =>
      by_cases hkey : key = m.slidingDoorKey
      · subst hkey
        obtain ⟨hmem, hper⟩ := h.doors _ _ hsome
        simp only [Function.update_self, Option.some.injEq] at hdoor
        subst hdoor
        exact ⟨hmem, (SlidingDoor.removeOffset_commitPerMessage door'.1 m).trans hper⟩
      · simp only [Function.update_of_ne hkey] at hdoor
        exact h.doors key door hdoor

variable (builder : KafkaMessageContextBuilder π) (p : CommandProcessor π)

theorem WellFormed.pollMessages (h : s.WellFormed) (r : ConsumeResult) :
    (s.pollMessages builder p r).WellFormed := by
  unfold Receiver.pollMessages
  rcases onMessage_cases builder p s.consumer r with
    ⟨context, -, heq⟩ | heq | ⟨c', e, rfl | rfl, heq⟩
  · rw [heq]
    have hadd := h.addMessageOffset r true
    exact ⟨hadd.named, hadd.doors⟩
  · rw [heq]
    exact h.addMessageOffset r true
  · rw [heq]
    exact (h.addMessageOffset r _).finish _
  · rw [heq]
    exact ((h.addMessageOffset r _).finish _).finish _

theorem WellFormed.commitOffset (h : s.WellFormed) (i : Nat) (context : MessageContext π) :
    (s.commitOffset i context).WellFormed := by
  have hrest : WellFormed { s with
      consumer := { s.consumer with inFlight := s.consumer.inFlight.eraseIdx i } } :=
    ⟨h.named, h.doors⟩
  exact hrest.finish context.messageOffset

/-- Another offset is pending after a poll only if it is that of the record. -/
theorem WellFormed.pendings_poll (h : s.WellFormed) (r : ConsumeResult) :
    (s.pollMessages builder p r).pendings ⊆ insert (place r.messageOffset) s.pendings := by
  intro x hx
  obtain ⟨m, rfl, hm⟩ := (h.pollMessages builder p r).exists_place hx
  rcases pending_onMessage hm with hsame | hold
  · exact Finset.mem_insert.2 (.inl (place_eq_iff.2 hsame))
  · exact Finset.mem_insert_of_mem (h.mem_pendings.2 hold)

/-- A commit takes away the offset of its context, and no other one. -/
theorem WellFormed.pendings_commit (h : s.WellFormed) (i : Nat) (context : MessageContext π) :
    (s.commitOffset i context).pendings = s.pendings.erase (place context.messageOffset) := by
  have h' := h.commitOffset i context
  ext x
  rw [Finset.mem_erase]
  constructor
  · intro hx
    obtain ⟨m, rfl, hm⟩ := h'.exists_place hx
    obtain ⟨hne, hold⟩ := pending_finishConsumingMessage hm
    exact ⟨mt place_eq_iff.1 hne, h.mem_pendings.2 hold⟩
  · rintro ⟨hne, hx⟩
    obtain ⟨m, rfl, hm⟩ := h.exists_place hx
    exact h'.mem_pendings.2 (Pending.finish hm (mt place_eq_iff.2 hne))

variable {builder p} {fullLoadThreshold : Int}

/-- What a step does. -/
theorem step_cases {a : Action} (h : step builder p fullLoadThreshold s a = some s') :
    (∃ r, a = .poll r ∧ s.blocked = false ∧ s' = s.pollMessages builder p r) ∨
    (∃ throws, a = .consume throws ∧ s.blocked = false ∧ s' = { s with blocked := !throws }) ∨
    (a = .check ∧ s.blocked = true ∧
      s' = { s with blocked := fullLoadThreshold < s.remainMessageCount }) ∨
    ∃ i context, a = .commit i ∧ s.consumer.inFlight[i]? = some context ∧
      s' = s.commitOffset i context := by
  cases a with
  | poll r =>
    simp only [step] at h
    split at h
    · cases h
    · next hblocked => exact .inl ⟨r, rfl, by simpa using hblocked, (Option.some.inj h).symm⟩
  | consume throws =>
    simp only [step] at h
    split at h
    · cases h
    · next hblocked =>
      exact .inr (.inl ⟨throws, rfl, by simpa using hblocked, (Option.some.inj h).symm⟩)
  | check =>
    simp only [step] at h
    split at h
    · next hblocked => exact .inr (.inr (.inl ⟨rfl, hblocked, (Option.some.inj h).symm⟩))
    · cases h
  | commit i =>
    obtain ⟨context, hcontext, rfl⟩ := Option.map_eq_some_iff.1 h
    exact .inr (.inr (.inr ⟨i, context, rfl, hcontext, rfl⟩))

theorem WellFormed.step (h : s.WellFormed) {a : Action}
    (hs : step builder p fullLoadThreshold s a = some s') : s'.WellFormed := by
  rcases step_cases hs with
    ⟨r, -, -, rfl⟩ | ⟨throws, -, -, rfl⟩ | ⟨-, -, rfl⟩ | ⟨i, context, -, -, rfl⟩
  · exact h.pollMessages builder p r
  · exact ⟨h.named, h.doors⟩
  · exact ⟨h.named, h.doors⟩
  · exact h.commitOffset i context

/-! ## How many records are being handled -/

/-- The record that is polled is not one that is being handled. -/
def Fresh (s : Receiver π) : Action → Prop
  | .poll r => ∀ context ∈ s.consumer.inFlight, ¬SameOffset context.messageOffset r.messageOffset
  | _ => True

/-- The records that are being handled are pending, each for itself, and these are as few as
`BlockIfFullLoad` lets them be. -/
structure Bounded (fullLoadThreshold : Int) (s : Receiver π) : Prop extends WellFormed s where
  commitPerMessage : s.consumer.commitPerMessage = false
  held : ∀ context ∈ s.consumer.inFlight, s.consumer.Pending context.messageOffset
  apart : (s.consumer.inFlight.map fun context => place context.messageOffset).Nodup
  light : (s.pendings.card : Int) ≤ max fullLoadThreshold 0 + s.blocked.toNat

theorem bounded_init : (init false : Receiver π).Bounded fullLoadThreshold where
  toWellFormed := wellFormed_init false
  commitPerMessage := rfl
  held := by simp [init, KafkaConsumer.init]
  apart := by simp [init, KafkaConsumer.init]
  light := by simp [init, pendings]

theorem Bounded.length_le (h : Bounded fullLoadThreshold s) :
    (s.consumer.inFlight.length : Int) ≤ max fullLoadThreshold 0 + s.blocked.toNat := by
  have hsub : (s.consumer.inFlight.map fun context => place context.messageOffset).toFinset ⊆
      s.pendings := by
    intro x hx
    obtain ⟨context, hcontext, rfl⟩ := List.mem_map.1 (List.mem_toFinset.1 hx)
    exact h.mem_pendings.2 (h.held context hcontext)
  have hcard := Finset.card_le_card hsub
  rw [List.toFinset_card_of_nodup h.apart, List.length_map] at hcard
  have hlight := h.light
  omega

theorem finishConsumingMessage_commitPerMessage (c : KafkaConsumer π) (m : MessageOffset) :
    (c.finishConsumingMessage m).1.commitPerMessage = c.commitPerMessage := by
  unfold finishConsumingMessage
  split <;> rfl

theorem Bounded.poll (h : Bounded fullLoadThreshold s) {r : ConsumeResult}
    (hfresh : Fresh s (.poll r)) (hblocked : s.blocked = false) :
    (s.pollMessages builder p r).Bounded fullLoadThreshold := by
  have hwell := h.toWellFormed.pollMessages builder p r
  have hsub := h.toWellFormed.pendings_poll builder p r
  have hlight : (s.pendings.card : Int) ≤ max fullLoadThreshold 0 := by
    simpa [hblocked] using h.light
  have hmore := (Finset.card_le_card hsub).trans (Finset.card_insert_le _ _)
  have hadd : ∀ context ∈ s.consumer.inFlight,
      (s.consumer.addMessageOffset r.topic r.partition r.offset).Pending context.messageOffset :=
    fun context hcontext => (h.held context hcontext).addMessageOffset _ _ _
  unfold pollMessages at hwell hsub hmore ⊢
  rcases onMessage_cases builder p s.consumer r with
    ⟨context, hoffset, heq⟩ | heq | ⟨c', e, hc', heq⟩
  · rw [heq] at hwell hmore ⊢
    refine ⟨hwell, h.commitPerMessage, fun context' hcontext' => ?_, ?_, ?_⟩
    · rcases List.mem_append.1 hcontext' with hold | hnew
      · exact hadd context' hold
      · obtain rfl := List.mem_singleton.1 hnew
        rw [hoffset]
        exact pending_messageOffset
          (fun key door hdoor => (h.doors key door hdoor).2.trans h.commitPerMessage)
          h.commitPerMessage
    · simp only [KafkaConsumer.addMessageOffset, List.map_append, List.map_cons, List.map_nil]
      refine List.nodup_append.2 ⟨h.apart, List.nodup_singleton _, ?_⟩
      intro x hx y hy
      obtain ⟨context', hcontext', rfl⟩ := List.mem_map.1 hx
      obtain rfl := List.mem_singleton.1 hy
      rw [hoffset]
      exact mt place_eq_iff.1 (hfresh context' hcontext')
    · simp only [Option.isNone_none, Bool.toNat_true] at hmore ⊢
      omega
  · rw [heq] at hwell hmore ⊢
    refine ⟨hwell, h.commitPerMessage, hadd, h.apart, ?_⟩
    simp only [Option.isNone_none, Bool.toNat_true] at hmore ⊢
    omega
  · -- what is finished is not pending, also when `RemoveOffset` throws
    have hne : ∀ context ∈ s.consumer.inFlight,
        ¬SameOffset context.messageOffset r.messageOffset := hfresh
    have hkept : c'.commitPerMessage = false ∧ c'.inFlight = s.consumer.inFlight ∧
        ∀ context ∈ s.consumer.inFlight, c'.Pending context.messageOffset := by
      rcases hc' with rfl | rfl
      · exact ⟨h.commitPerMessage, rfl, hadd⟩
      · refine ⟨?_, inFlight_finishConsumingMessage _ _, fun context hcontext => ?_⟩
        · exact (finishConsumingMessage_commitPerMessage _ _).trans h.commitPerMessage
        · exact (hadd context hcontext).finish (hne context hcontext)
    obtain ⟨hper, hinFlight, hpending⟩ := hkept
    rw [heq] at hwell hsub ⊢
    refine ⟨hwell, (finishConsumingMessage_commitPerMessage _ _).trans hper, ?_, ?_, ?_⟩
    · intro context hcontext
      rw [inFlight_finishConsumingMessage, hinFlight] at hcontext
      exact (hpending context hcontext).finish (hne context hcontext)
    · rw [inFlight_finishConsumingMessage, hinFlight]
      exact h.apart
    · have hless := Finset.card_le_card ((Finset.subset_insert_iff_of_notMem fun hmem =>
        (pending_finishConsumingMessage (hwell.mem_pendings.1 hmem)).1 ⟨rfl, rfl⟩).1 hsub)
      omega

theorem Bounded.commitOffset (h : Bounded fullLoadThreshold s) {i : Nat} {context : MessageContext π}
    (hcontext : s.consumer.inFlight[i]? = some context) :
    (s.commitOffset i context).Bounded fullLoadThreshold := by
  refine ⟨h.toWellFormed.commitOffset i context,
    (finishConsumingMessage_commitPerMessage _ _).trans h.commitPerMessage, ?_, ?_, ?_⟩
  · intro context' hcontext'
    have hmem : context' ∈ s.consumer.inFlight.eraseIdx i := by
      simpa [Receiver.commitOffset, KafkaConsumer.commitOffset] using hcontext'
    obtain ⟨j, hj, hget⟩ := List.mem_eraseIdx_iff_getElem?.1 hmem
    refine Pending.finish (h.held context' (List.mem_of_mem_eraseIdx hmem)) fun hsame => hj ?_
    have hi : (s.consumer.inFlight.map fun context => place context.messageOffset)[i]? =
        some (place context.messageOffset) := by simp [hcontext]
    have hj : (s.consumer.inFlight.map fun context => place context.messageOffset)[j]? =
        some (place context.messageOffset) := by simp [hget, place_eq_iff.2 hsame]
    obtain ⟨hlt, -⟩ := List.getElem?_eq_some_iff.1 hj
    exact (List.getElem?_inj hlt h.apart).1 (hj.trans hi.symm)
  · have herase : (s.commitOffset i context).consumer.inFlight = s.consumer.inFlight.eraseIdx i := by
      simp [Receiver.commitOffset, KafkaConsumer.commitOffset]
    rw [herase, ← List.eraseIdx_map]
    exact h.apart.eraseIdx i
  · rw [h.toWellFormed.pendings_commit]
    have hle := Finset.card_le_card (s.pendings.erase_subset (place context.messageOffset))
    have hlight := h.light
    show _ ≤ max fullLoadThreshold 0 + (s.blocked.toNat : Int)
    omega

theorem Bounded.step (h : Bounded fullLoadThreshold s) {a : Action} (hfresh : Fresh s a)
    (hs : step builder p fullLoadThreshold s a = some s') : s'.Bounded fullLoadThreshold := by
  rcases step_cases hs with
    ⟨r, rfl, hblocked, rfl⟩ | ⟨throws, -, hblocked, rfl⟩ | ⟨-, -, rfl⟩ | ⟨i, context, -, hget, rfl⟩
  · exact h.poll hfresh hblocked
  · refine { h with light := ?_ }
    have hlight := h.light
    rw [hblocked] at hlight
    show (s.pendings.card : Int) ≤ _
    simp only [Bool.toNat_false] at hlight
    omega
  · refine { h with light := ?_ }
    show (s.pendings.card : Int) ≤ max fullLoadThreshold 0 +
      (decide (fullLoadThreshold < (s.remainMessageCount : Int))).toNat
    have hlight := h.light
    have hcard := s.card_pendings
    have hblocked := s.blocked.toNat_le
    by_cases hfull : fullLoadThreshold < (s.remainMessageCount : Int)
    · rw [decide_eq_true hfull, Bool.toNat_true]
      omega
    · rw [decide_eq_false hfull, Bool.toNat_false]
      omega
  · exact h.commitOffset hget

/-- Below zero, the first record that is handed over is the last one that is polled. -/
theorem length_le_of_negative (hneg : fullLoadThreshold < 0) {a : Action}
    (h : s.consumer.inFlight.length ≤ s.blocked.toNat)
    (hs : step builder p fullLoadThreshold s a = some s') :
    s'.consumer.inFlight.length ≤ s'.blocked.toNat := by
  rcases step_cases hs with
    ⟨r, -, hblocked, rfl⟩ | ⟨throws, -, hblocked, rfl⟩ | ⟨-, hblocked, rfl⟩ | ⟨i, context, -, -, rfl⟩
  · rw [hblocked, Bool.toNat_false] at h
    unfold pollMessages
    rcases onMessage_cases builder p s.consumer r with
      ⟨context, -, heq⟩ | heq | ⟨c', e, hc', heq⟩
    · rw [heq]
      simpa [KafkaConsumer.addMessageOffset] using h
    · rw [heq]
      exact h.trans (Nat.zero_le _)
    · have hinFlight : c'.inFlight = s.consumer.inFlight := by
        rcases hc' with rfl | rfl
        · rfl
        · exact inFlight_finishConsumingMessage _ _
      rw [heq, inFlight_finishConsumingMessage, hinFlight]
      exact h.trans (Nat.zero_le _)
  · rw [hblocked, Bool.toNat_false] at h
    exact h.trans (Nat.zero_le _)
  · have hfull : fullLoadThreshold < (s.remainMessageCount : Int) := by omega
    rw [hblocked] at h
    simpa [hfull] using h
  · refine le_trans ?_ h
    simpa [Receiver.commitOffset, KafkaConsumer.commitOffset] using List.length_eraseIdx_le _ _

/-- Doors that commit each message for itself have nothing pending. -/
theorem WellFormed.remainMessageCount_eq_zero (h : s.WellFormed)
    (hper : s.consumer.commitPerMessage = true) : s.remainMessageCount = 0 := by
  refine Finset.sum_eq_zero fun key _ => ?_
  cases hdoor : s.consumer.slidingDoors key with
  | none => rfl
  | some door =>
    have hempty := door.2 ((h.doors key door hdoor).2.trans hper)
    simp [SlidingDoor.messageCount, hempty]

/-- So many records of one partition, and a check behind each. -/
def flood : Nat → Nat → List Action
  | _, 0 => []
  | k, n + 1 => .poll ⟨"topic", 0, k, none, some ""⟩ :: .check :: flood (k + 1) n

/-- A processor that takes all records, none of which has been finished. -/
structure Flooded (k : Nat) (s : Receiver String) : Prop extends WellFormed s where
  commitPerMessage : s.consumer.commitPerMessage = true
  unblocked : s.blocked = false
  length : s.consumer.inFlight.length = k
  below : ∀ context ∈ s.consumer.inFlight, context.messageOffset.offset < k

theorem Flooded.exists_run (hthreshold : 0 ≤ fullLoadThreshold) {n k : Nat} {s : Receiver String}
    (h : Flooded k s) :
    ∃ s', run (step (defaultKafkaMessageContextBuilder some) idleProcessor fullLoadThreshold) s
        (flood k n) = some s' ∧
      Along (step (defaultKafkaMessageContextBuilder some) idleProcessor fullLoadThreshold) Fresh s
        (flood k n) ∧ Flooded (k + n) s' := by
  induction n generalizing k s with
  | zero => exact ⟨s, rfl, trivial, h⟩
  | succ n ih =>
    let r : ConsumeResult := ⟨"topic", 0, k, none, some ""⟩
    let t := s.pollMessages (defaultKafkaMessageContextBuilder some) idleProcessor r
    have hwell : t.WellFormed :=
      h.toWellFormed.pollMessages (defaultKafkaMessageContextBuilder some) idleProcessor r
    have hcount : t.remainMessageCount = 0 :=
      hwell.remainMessageCount_eq_zero h.commitPerMessage
    have hpoll : step (defaultKafkaMessageContextBuilder some) idleProcessor fullLoadThreshold s
        (.poll r) = some t := by simp [step, h.unblocked, t]
    have hcheck : step (defaultKafkaMessageContextBuilder some) idleProcessor fullLoadThreshold t
        .check = some { t with blocked := false } := by
      have hempty : ¬fullLoadThreshold < (t.remainMessageCount : Int) := by omega
      simp only [step, decide_eq_false hempty]
      rfl
    have hinFlight : t.consumer.inFlight = s.consumer.inFlight ++ [⟨some "", r.messageOffset⟩] := rfl
    have hnext : Flooded (k + 1) { t with blocked := false } :=
      { hwell with
        commitPerMessage := h.commitPerMessage
        unblocked := rfl
        length := by
          show t.consumer.inFlight.length = k + 1
          rw [hinFlight, List.length_append, h.length]
          rfl
        below := fun context hcontext => by
          rcases List.mem_append.1 (hinFlight ▸ hcontext) with hold | hnew
          · have := h.below context hold
            omega
          · obtain rfl := List.mem_singleton.1 hnew
            show (k : Int) < (k + 1 : Nat)
            omega }
    obtain ⟨s', hrun, hfresh, hflooded⟩ := ih hnext
    refine ⟨s', ?_, ⟨fun context hcontext hsame => ?_, fun t' ht' => ?_⟩, ?_⟩
    · exact run_cons_eq_some.2 ⟨t, hpoll, run_cons_eq_some.2 ⟨_, hcheck, hrun⟩⟩
    · have hlt := h.below context hcontext
      have heq : context.messageOffset.offset = k := hsame.2
      omega
    · obtain rfl : t = t' := Option.some.inj (hpoll.symm.trans ht')
      refine ⟨trivial, fun t'' ht'' => ?_⟩
      obtain rfl := Option.some.inj (hcheck.symm.trans ht'')
      exact hfresh
    · rwa [Nat.add_assoc, Nat.add_comm 1 n] at hflooded

/-- In every run in which no record is polled while it is being handled, no more records are being
handled than the threshold and one, exactly if the doors do not commit each message for itself or
the threshold is negative. -/
theorem inFlight_bounded_iff (fullLoadThreshold : Int) (commitPerMessage : Bool) :
    (∀ (π : Type) (builder : KafkaMessageContextBuilder π) (p : CommandProcessor π)
        (actions : List Action) (s : Receiver π),
        Along (step builder p fullLoadThreshold) Fresh (init commitPerMessage) actions →
        run (step builder p fullLoadThreshold) (init commitPerMessage) actions = some s →
          (s.consumer.inFlight.length : Int) ≤ max fullLoadThreshold 0 + 1) ↔
      commitPerMessage = false ∨ fullLoadThreshold < 0 := by
  constructor
  · intro h
    by_contra hnot
    obtain ⟨hper, hthreshold⟩ := not_or.1 hnot
    rw [Bool.not_eq_false] at hper
    subst hper
    have hstart : Flooded 0 (init true) :=
      { wellFormed_init true with
        commitPerMessage := rfl
        unblocked := rfl
        length := rfl
        below := fun _ hcontext => absurd hcontext List.not_mem_nil }
    obtain ⟨s, hrun, hfresh, hflooded⟩ :=
      hstart.exists_run (Int.not_lt.1 hthreshold) (n := fullLoadThreshold.toNat + 2)
    have hle := h _ _ _ _ s hfresh hrun
    rw [hflooded.length] at hle
    omega
  · intro h π builder p actions s hfresh hrun
    rcases h with rfl | hneg
    · have hbounded : s.Bounded fullLoadThreshold := Along.invariant (Bounded fullLoadThreshold)
        (fun _ _ _ h ha hs => h.step ha hs) bounded_init hfresh hrun
      have hle := hbounded.length_le
      have hone := s.blocked.toNat_le
      omega
    · have hle := run_invariant
        (fun s : Receiver π => s.consumer.inFlight.length ≤ s.blocked.toNat)
        (fun _ _ _ h hs => length_le_of_negative hneg h hs) (Nat.zero_le _) hrun
      have hone := s.blocked.toNat_le
      omega

/-- A record that is polled again while it is being handled is not counted again. -/
example : (run (step (defaultKafkaMessageContextBuilder some) idleProcessor 1) (init false)
    [.poll ⟨"topic", 0, 0, none, some ""⟩, .check, .poll ⟨"topic", 0, 0, none, some ""⟩, .check,
      .poll ⟨"topic", 0, 0, none, some ""⟩, .check]).map
        (fun s => (s.consumer.inFlight.length, s.blocked)) = some (3, false) := by
  decide +kernel

/-! ## When nothing is polled any more -/

/-- The pending offsets without a task that is going to commit them. -/
def abandoned (s : Receiver π) : Finset (Σ _ : String, Int) :=
  s.pendings.filter fun x => ∀ context ∈ s.consumer.inFlight, x ≠ place context.messageOffset

/-- A commit leaves them as they are. -/
theorem WellFormed.abandoned_commitOffset (h : s.WellFormed) {i : Nat} {context : MessageContext π}
    (hcontext : s.consumer.inFlight[i]? = some context) :
    (s.commitOffset i context).abandoned = s.abandoned := by
  have herase : (s.commitOffset i context).consumer.inFlight = s.consumer.inFlight.eraseIdx i := by
    simp [Receiver.commitOffset, KafkaConsumer.commitOffset]
  unfold abandoned
  rw [h.pendings_commit, herase]
  ext x
  simp only [Finset.mem_filter, Finset.mem_erase]
  constructor
  · rintro ⟨⟨hne, hx⟩, hothers⟩
    refine ⟨hx, fun context' hmem => ?_⟩
    obtain ⟨j, hj⟩ := List.mem_iff_getElem?.1 hmem
    by_cases hij : j = i
    · obtain rfl : context = context' := Option.some.inj (hcontext.symm.trans (hij ▸ hj))
      exact hne
    · exact hothers context' (List.mem_eraseIdx_iff_getElem?.2 ⟨j, hij, hj⟩)
  · rintro ⟨hx, hall⟩
    exact ⟨⟨hall context (List.mem_of_getElem? hcontext), hx⟩,
      fun context' hmem => hall context' (List.mem_of_mem_eraseIdx hmem)⟩

/-- All tasks commit, one after the other. -/
theorem exists_drained (builder : KafkaMessageContextBuilder π) (p : CommandProcessor π)
    (fullLoadThreshold : Int) (h : s.WellFormed) :
    ∃ actions s', run (step builder p fullLoadThreshold) s actions = some s' ∧
      s'.blocked = s.blocked ∧ s'.pendings = s.abandoned := by
  induction hn : s.consumer.inFlight generalizing s with
  | nil => exact ⟨[], s, rfl, rfl, by simp [abandoned, hn]⟩
  | cons context rest ih =>
    have hcontext : s.consumer.inFlight[0]? = some context := by simp [hn]
    have hrest : (s.commitOffset 0 context).consumer.inFlight = rest := by
      simp [Receiver.commitOffset, KafkaConsumer.commitOffset, hn]
    obtain ⟨actions, s', hrun, hblocked, hpendings⟩ := ih (h.commitOffset 0 context) hrest
    refine ⟨.commit 0 :: actions, s', run_cons_eq_some.2 ⟨_, ?_, hrun⟩, hblocked, ?_⟩
    · simp [step, hcontext]
    · rw [hpendings, h.abandoned_commitOffset hcontext]

/-- A blocked loop that nothing is going to end. -/
structure Stuck (fullLoadThreshold : Int) (s : Receiver π) : Prop extends WellFormed s where
  blocked : s.blocked = true
  full : fullLoadThreshold < (s.abandoned.card : Int)

theorem Stuck.step (h : Stuck fullLoadThreshold s) {a : Action}
    (hs : step builder p fullLoadThreshold s a = some s') : Stuck fullLoadThreshold s' := by
  have hwell := h.toWellFormed.step hs
  rcases step_cases hs with
    ⟨r, -, hblocked, -⟩ | ⟨throws, -, hblocked, -⟩ | ⟨-, -, rfl⟩ | ⟨i, context, -, hget, rfl⟩
  · cases hblocked.symm.trans h.blocked
  · cases hblocked.symm.trans h.blocked
  · have hle := Finset.card_le_card (Finset.filter_subset (fun x => ∀ context ∈ s.consumer.inFlight,
      x ≠ place context.messageOffset) s.pendings)
    have hfull : fullLoadThreshold < (s.abandoned.card : Int) := h.full
    have hcount : fullLoadThreshold < (s.remainMessageCount : Int) := by
      rw [← card_pendings]
      exact lt_of_lt_of_le hfull (by exact_mod_cast hle)
    exact ⟨hwell, decide_eq_true hcount, hfull⟩
  · refine ⟨hwell, h.blocked, ?_⟩
    rw [h.toWellFormed.abandoned_commitOffset hget]
    exact h.full

/-- Wherever a run ends, the loop can go on to poll exactly if it is not blocked, or there are no
more pending offsets without a task than the threshold. -/
theorem resumes_iff {commitPerMessage : Bool} {actions : List Action}
    (hrun : run (step builder p fullLoadThreshold) (init commitPerMessage) actions = some s) :
    (∃ actions' s', run (step builder p fullLoadThreshold) s actions' = some s' ∧
        s'.blocked = false) ↔
      s.blocked = false ∨ (s.abandoned.card : Int) ≤ fullLoadThreshold := by
  have hwell : s.WellFormed := run_invariant WellFormed (fun _ _ _ h hs => h.step hs)
    (wellFormed_init commitPerMessage) hrun
  constructor
  · rintro ⟨actions', s', hrun', hopen⟩
    by_contra hnot
    obtain ⟨hblocked, hfull⟩ := not_or.1 hnot
    have hstuck : Stuck fullLoadThreshold s := ⟨hwell, by simpa using hblocked, by omega⟩
    have hend := run_invariant (Stuck fullLoadThreshold) (fun _ _ _ h hs => h.step hs) hstuck hrun'
    cases hopen.symm.trans hend.blocked
  · rintro (hopen | hle)
    · exact ⟨[], s, rfl, hopen⟩
    · obtain ⟨actions', t, hrun', hblocked, hpendings⟩ :=
        exists_drained builder p fullLoadThreshold hwell
      by_cases hopen : t.blocked = true
      · refine ⟨actions' ++ [.check], { t with blocked := false }, ?_, rfl⟩
        refine run_append_eq_some.2 ⟨t, hrun', run_cons_eq_some.2 ⟨_, ?_, rfl⟩⟩
        have hcount : ¬fullLoadThreshold < (t.remainMessageCount : Int) := by
          rw [← card_pendings, hpendings]
          exact not_lt.2 hle
        simp only [step, if_pos hopen, decide_eq_false hcount]
      · exact ⟨actions', t, hrun', by simpa using hopen⟩

/-- A builder that reads the value throws on a record that has none, and with the threshold `0` one
such record is the last one. -/
theorem resumes_iff_without_value : ∃ s : Receiver String,
    run (step valueBuilder idleProcessor 0) (init false) [.poll ⟨"command", 0, 7, some "k", none⟩] =
        some s ∧
      ¬∃ actions' s', run (step valueBuilder idleProcessor 0) s actions' = some s' ∧
        s'.blocked = false := by
  have hfacts : (run (step valueBuilder idleProcessor 0) (init false)
      [.poll ⟨"command", 0, 7, some "k", none⟩]).map (fun s => (s.blocked, s.abandoned.card)) =
        some (true, 1) := by
    decide +kernel
  obtain ⟨s, hrun, hs⟩ := Option.map_eq_some_iff.1 hfacts
  obtain ⟨hblocked, hcard⟩ := Prod.mk.inj hs
  refine ⟨s, hrun, fun hresumes => ?_⟩
  rcases (resumes_iff hrun).1 hresumes with hopen | hle
  · cases hopen.symm.trans hblocked
  · omega

end Receiver

end IFramework.MessageQueue
