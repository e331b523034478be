import IFramework.MessageQueue.Commit
import IFramework.MessageQueue.KafkaConsumer
import Mathlib.Data.Multiset.AddSub

/-!
# A partition and its consumers

Records are appended to a partition, and the consumers of a group poll them. A consumer begins where
the group has committed, or where `AutoOffsetReset` says when it has not. A task handles each record
and then finishes it, and what the sliding door of the consumer commits becomes the position of the
group. A record is handled once its task has come to its end, also when that is a failure, which is
logged, or when the tag filter of a subscriber has left it out. When the hand-over of a record
throws, this is logged and the record is finished as well: it is given up. One whose hand-over is
cancelled, or that is given up without a value, stays running.

A consumer can be assigned the partition and lose it at any moment. It keeps its door and its tasks,
and what it commits late may be accepted or not, as any other commit; when it gets the partition
back, it goes on with the old door. `Stop` drops the door, so that `FinishConsumingMessage` throws
for the tasks that are left. A consumer that crashes takes no more steps. Offsets grow, with gaps
where there are no records; no record is deleted.

Nothing is lost: the position never passes a record that has neither been handled nor given up,
whichever steps are taken, exactly if the group begins with the first record and the doors do not
commit each message for itself, or if it never begins (`position_safe_iff`).
-/

namespace IFramework.MessageQueue

open Machine SlidingDoor

inductive AutoOffsetReset where
  | latest
  | earliest
  | error
  deriving DecidableEq

/-- A consumer of the group. -/
structure Consumer where
  /-- The door of the partition in `SlidingDoors`. -/
  door : Option SlidingDoor
  /-- The offset that it polls next, when it takes the partition for its own. -/
  next : Option Nat
  /-- The records whose tasks have not ended, and those that are handled and not finished. -/
  running : Multiset Nat
  done : Multiset Nat

/-- A partition of a topic, with the consumers of a group. -/
structure Partition where
  commitPerMessage : Bool
  autoOffsetReset : AutoOffsetReset
  /-- The offsets of the records. -/
  log : List Nat
  logEnd : Nat
  /-- The position of the group. -/
  committed : Option Nat
  consumers : Nat → Consumer
  /-- The consumer that got the partition last. -/
  owner : Option Nat
  /-- The records that have been handled, by any consumer, and those whose hand-over has thrown. -/
  handled : Finset Nat
  givenUp : Finset Nat

namespace Consumer

/-- A consumer that has not polled yet. -/
def new : Consumer := ⟨none, none, 0, 0⟩

/-- The records that have been polled and not finished. -/
def unfinished (c : Consumer) : Multiset Nat := c.running + c.done

/-- The pending offsets. -/
def offsets (c : Consumer) : Finset Int := c.door.elim ∅ SlidingDoor.offsets

end Consumer

namespace Partition

/-- A partition without records. -/
def init (commitPerMessage : Bool) (autoOffsetReset : AutoOffsetReset) : Partition where
  commitPerMessage := commitPerMessage
  autoOffsetReset := autoOffsetReset
  log := []
  logEnd := 0
  committed := none
  consumers _ := .new
  owner := none
  handled := ∅
  givenUp := ∅

inductive Action where
  /-- A record is appended, behind so many offsets without one. -/
  | append (gap : Nat)
  | assign (consumer : Nat)
  /-- A consumer learns that it has lost the partition. -/
  | revoke (consumer : Nat)
  | stop (consumer : Nat)
  | poll (consumer : Nat)
  /-- The task of a record has come to its end. -/
  | handle (consumer offset : Nat)
  /-- It calls `CommitOffset`; the broker accepts what the door commits, or not. -/
  | finish (consumer offset : Nat) (accepted : Bool)
  /-- The hand-over of a record has thrown, and the record is finished. -/
  | giveUp (consumer offset : Nat) (accepted : Bool)
  deriving DecidableEq

/-- The message offset of a record. -/
def messageOffset (offset : Nat) : MessageOffset := ⟨"", "topic", 0, offset⟩

/-- Where a consumer begins to poll. -/
def startingOffset (s : Partition) : Option Nat :=
  match s.committed, s.autoOffsetReset with
  | some position, _ => some position
  | none, .earliest => some 0
  | none, .latest => some s.logEnd
  | none, .error => none

def modifyConsumer (s : Partition) (i : Nat) (f : Consumer → Consumer) : Partition :=
  { s with consumers := Function.update s.consumers i (f (s.consumers i)) }

@[simp] theorem modifyConsumer_self (s : Partition) (i : Nat) (f : Consumer → Consumer) :
    (s.modifyConsumer i f).consumers i = f (s.consumers i) := Function.update_self _ _ _

theorem modifyConsumer_of_ne {s : Partition} {i j : Nat} {f : Consumer → Consumer} (hj : j ≠ i) :
    (s.modifyConsumer i f).consumers j = s.consumers j := Function.update_of_ne hj _ _

/-- `CommitOffsetAsync` moves the position behind the offset. -/
def commitOffsetAsync (s : Partition) (accepted : Bool) (m : MessageOffset) : Partition :=
  if accepted then { s with committed := some (m.offset + 1).toNat } else s

/-- `PollMessages`: the offset of the next record is added to the door, or to a new one. -/
def pollMessages (s : Partition) (i : Nat) : Option Partition :=
  (s.consumers i).next.bind fun next =>
    (s.log.find? fun o => next ≤ o).map fun (o : Nat) =>
      s.modifyConsumer i fun c =>
        { c with
          door := some ((c.door.getD (.new s.commitPerMessage)).addOffset o)
          next := some (o + 1)
          running := o ::ₘ c.running }

/-- `FinishConsumingMessage`; without a door, or when the door throws, there is no commit. -/
def finishConsumingMessage (s : Partition) (i offset : Nat) (accepted : Bool) : Partition :=
  match (s.consumers i).door with
  | none => s
  | some door =>
    let (door, outcome) := door.removeOffset (messageOffset offset)
    let s := s.modifyConsumer i fun c => { c with door := some door }
    match outcome with
    | .returned (some m) => s.commitOffsetAsync accepted m
    | .returned none => s
    | .argumentException => s

/-- One atomic step. -/
def step (s : Partition) : Action → Option Partition
  | .append gap => some { s with log := s.log ++ [s.logEnd + gap], logEnd := s.logEnd + gap + 1 }
  | .assign i =>
    some ({ s with owner := some i }.modifyConsumer i fun c => { c with next := s.startingOffset })
  | .revoke i => some (s.modifyConsumer i fun c => { c with next := none })
  | .stop i => some (s.modifyConsumer i fun c => { c with door := none, next := none })
  | .poll i => s.pollMessages i
  | .handle i o =>
    if o ∈ (s.consumers i).running then
      some ({ s with handled := insert o s.handled }.modifyConsumer i fun c =>
        { c with running := c.running.erase o, done := o ::ₘ c.done })
    else none
  | .finish i o accepted =>
    if o ∈ (s.consumers i).done then
      some ((s.modifyConsumer i fun c =>
        { c with done := c.done.erase o }).finishConsumingMessage i o accepted)
    else none
  | .giveUp i o accepted =>
    if o ∈ (s.consumers i).running then
      some (({ s with givenUp := insert o s.givenUp }.modifyConsumer i fun c =>
        { c with running := c.running.erase o }).finishConsumingMessage i o accepted)
    else none

/-- The record that is polled is the first one from `next` on. -/
theorem find_next {log : List Nat} (hlog : log.Pairwise (· < ·)) {next o : Nat}
    (h : (log.find? fun o => next ≤ o) = some o) :
    o ∈ log ∧ next ≤ o ∧ ∀ o' ∈ log, next ≤ o' → o ≤ o' := by
  obtain ⟨hnext, front, back, rfl, hfront⟩ := List.find?_eq_some_iff_append.1 h
  refine ⟨by simp, by simpa using hnext, fun o' ho' hle => ?_⟩
  rcases List.mem_append.1 ho' with ho' | ho'
  · have hlt := hfront o' ho'
    simp only [Bool.not_eq_true', decide_eq_false_iff_not] at hlt
    exact absurd hle hlt
  · rcases List.mem_cons.1 ho' with rfl | ho'
    · exact le_rfl
    · exact ((List.pairwise_cons.1 (List.pairwise_append.1 hlog).2.1).1 o' ho').le

end Partition

/-! ## What a door commits -/

/-- A door all of whose offsets are below `reach`. -/
structure SlidingDoor.Below (door : SlidingDoor) (reach : Nat) : Prop where
  commitPerMessage : door.commitPerMessage = false
  consumed : door.consumedOffset ≤ door.lastCommittedOffset
  offsets : ∀ a ∈ door.offsets, a < reach
  lastOffset : door.lastOffset < reach
  removed : ∀ k m, (k, m) ∈ door.removedMessageOffsets.entries → m.offset = k

namespace SlidingDoor.Below

variable {door : SlidingDoor} {reach reach' : Nat}

theorem new : (SlidingDoor.new false).Below reach where
  commitPerMessage := rfl
  consumed := le_rfl
  offsets := by simp [SlidingDoor.new]
  lastOffset := by simp [SlidingDoor.new]; omega
  removed := by simp [SlidingDoor.new, SortedList.empty]

theorem mono (h : door.Below reach) (hle : reach ≤ reach') : door.Below reach' where
  __ := h
  offsets a ha := by
    have := h.offsets a ha
    omega
  lastOffset := by
    have := h.lastOffset
    omega

theorem addOffset_eq (h : door.Below reach) (o : Int) :
    door.addOffset o = { door with offsets := insert o door.offsets, lastOffset := o } := by
  simp [SlidingDoor.addOffset, h.commitPerMessage]

theorem addOffset (h : door.Below reach) {o : Nat} (ho : o < reach) :
    (door.addOffset o).Below reach := by
  rw [h.addOffset_eq]
  refine { h with offsets := fun a ha => ?_, lastOffset := by simpa using ho }
  rcases Finset.mem_insert.1 ha with rfl | ha
  · exact_mod_cast ho
  · exact h.offsets a ha

theorem consumedOf_lt_reach (h : door.Below reach) (m : MessageOffset) :
    consumedOf (door.offsets.erase m.offset) door.lastOffset < reach := by
  unfold consumedOf
  split
  · next hne =>
    have := h.offsets _ (Finset.mem_of_mem_erase (Finset.min'_mem _ hne))
    omega
  · exact h.lastOffset

/-- What is committed lies below everything that is still pending. -/
theorem removeOffset (h : door.Below reach) (m : MessageOffset) :
    (door.removeOffset m).1.Below reach ∧
      ∀ c, (door.removeOffset m).2 = .returned (some c) →
        c.offset < reach ∧ ∀ a ∈ (door.removeOffset m).1.offsets, c.offset < a := by
  have hoffsets : ∀ a ∈ door.offsets.erase m.offset, a < reach := fun a ha =>
    h.offsets a (Finset.mem_of_mem_erase ha)
  unfold SlidingDoor.removeOffset
  simp only [h.commitPerMessage, Bool.false_eq_true, if_false]
  split
  · next hmem =>
    cases hadd : door.removedMessageOffsets.add m.offset m with
    | none =>
      exact ⟨⟨rfl, h.consumed, hoffsets, h.lastOffset, h.removed⟩, by simp⟩
    | some removed =>
      have hremoved : ∀ k c, (k, c) ∈ removed.entries → c.offset = k := by
        intro k c hc
        rcases (SortedList.mem_of_add hadd).1 hc with heq | hold
        · cases heq
          rfl
        · exact h.removed k c hold
      refine ⟨⟨by simp [h.commitPerMessage], by simp, ?_, by simpa using h.lastOffset, ?_⟩, ?_⟩
      · simpa using hoffsets
      · intro k c hc
        exact hremoved k c ((mem_commitConsumed _).1 hc).1
      · intro c hc
        simp only [RemoveOutcome.returned.injEq] at hc
        obtain ⟨-, hentry⟩ := commitConsumed_some _ hc
        rw [hremoved _ c hentry]
        refine ⟨h.consumedOf_lt_reach m, fun a ha => ?_⟩
        rw [commitConsumed_offsets] at ha
        exact consumedOf_lt ha
  · have hnone : door.commitConsumed = (door, none) := by
      simp [commitConsumed, not_lt.2 h.consumed]
    simp [hnone, h]

end SlidingDoor.Below

/-! ## What is behind the position -/

/-- Everything below `reach` is settled or pending in the door of the consumer. -/
structure Consumer.Covers (log : List Nat) (logEnd : Nat) (settled : Finset Nat) (c : Consumer)
    (reach : Nat) : Prop where
  reach_le : reach ≤ logEnd
  next_le : ∀ next, c.next = some next → next ≤ reach
  done : ∀ o ∈ c.done, o ∈ settled
  covered : ∀ o ∈ log, o < reach → o ∈ settled ∨ (o : Int) ∈ c.offsets
  door : ∀ door, c.door = some door → door.Below reach

namespace Consumer.Covers

variable {log : List Nat} {logEnd reach : Nat} {settled settled' : Finset Nat} {c : Consumer}

theorem new : Covers log logEnd settled .new 0 where
  reach_le := Nat.zero_le _
  next_le := by simp [Consumer.new]
  done := by simp [Consumer.new]
  covered o _ ho := absurd ho (Nat.not_lt_zero o)
  door := by simp [Consumer.new]

theorem mono (h : c.Covers log logEnd settled reach) (hle : settled ⊆ settled') :
    c.Covers log logEnd settled' reach where
  __ := h
  done o ho := hle (h.done o ho)
  covered o ho hlt := (h.covered o ho hlt).imp_left fun hmem => hle hmem

theorem append (h : c.Covers log logEnd settled reach) (gap : Nat) :
    c.Covers (log ++ [logEnd + gap]) (logEnd + gap + 1) settled reach where
  __ := h
  reach_le := by
    have := h.reach_le
    omega
  covered o ho hlt := by
    rcases List.mem_append.1 ho with ho | ho
    · exact h.covered o ho hlt
    · have := h.reach_le
      rw [List.mem_singleton.1 ho] at hlt
      omega

/-- The consumer goes on from a position behind which everything is settled, or no longer polls. -/
theorem setNext (h : c.Covers log logEnd settled reach) {next : Option Nat}
    (hnext : ∀ position, next = some position →
      position ≤ logEnd ∧ ∀ o ∈ log, o < position → o ∈ settled) :
    ∃ reach, Covers log logEnd settled { c with next } reach := by
  cases next with
  | none => exact ⟨reach, { h with next_le := by simp }⟩
  | some position =>
    obtain ⟨hle, hsettled⟩ := hnext position rfl
    refine ⟨max reach position, ⟨max_le h.reach_le hle, ?_, h.done, fun o ho hlt => ?_,
      fun door hdoor => (h.door door hdoor).mono (le_max_left _ _)⟩⟩
    · rintro _ ⟨⟩
      exact le_max_right _ _
    · by_cases hlt' : o < reach
      · exact h.covered o ho hlt'
      · exact .inl (hsettled o ho (by omega))

theorem stop (h : c.Covers log logEnd settled reach) :
    Covers log logEnd settled { c with door := none, next := none } 0 where
  reach_le := Nat.zero_le _
  next_le := by simp
  done := h.done
  covered o _ ho := absurd ho (Nat.not_lt_zero o)
  door := by simp

theorem below_getD (h : c.Covers log logEnd settled reach) :
    (c.door.getD (.new false)).Below reach := by
  cases hdoor : c.door with
  | none => exact .new
  | some door => exact h.door door hdoor

theorem offsets_getD (c : Consumer) : (c.door.getD (.new false)).offsets = c.offsets := by
  unfold Consumer.offsets
  cases c.door <;> rfl

theorem poll (h : c.Covers log logEnd settled reach) (hlog : ∀ o ∈ log, o < logEnd) {next o : Nat}
    (hnext : c.next = some next) (hmem : o ∈ log)
    (hleast : ∀ o' ∈ log, next ≤ o' → o ≤ o') :
    Covers log logEnd settled
      { c with
        door := some ((c.door.getD (.new false)).addOffset o)
        next := some (o + 1)
        running := o ::ₘ c.running } (max reach (o + 1)) := by
  have hbelow := h.below_getD.mono (le_max_left reach (o + 1))
  have hle := h.next_le next hnext
  refine ⟨max_le h.reach_le (hlog o hmem), ?_, h.done, fun o' ho' hlt => ?_, ?_⟩
  · rintro _ ⟨⟩
    exact le_max_right _ _
  · have hoffsets : Consumer.offsets
        { c with
          door := some ((c.door.getD (.new false)).addOffset o)
          next := some (o + 1)
          running := o ::ₘ c.running } = insert (o : Int) c.offsets := by
      simp only [Consumer.offsets, Option.elim_some]
      rw [h.below_getD.addOffset_eq, offsets_getD]
      rfl
    rw [hoffsets]
    by_cases hlt' : o' < reach
    · exact (h.covered o' ho' hlt').imp_right fun hin => Finset.mem_insert_of_mem hin
    · have hge := hleast o' ho' (by omega)
      obtain rfl : o' = o := by omega
      exact .inr (Finset.mem_insert_self _ _)
  · rintro _ ⟨⟩
    exact hbelow.addOffset (by omega)

/-- A settled record is removed from the door. -/
theorem removeOffset (h : c.Covers log logEnd settled reach) {door : SlidingDoor}
    (hdoor : c.door = some door) {o : Nat} (ho : o ∈ settled) :
    Covers log logEnd settled
      { c with door := some (door.removeOffset (Partition.messageOffset o)).1 } reach := by
  have hbelow := h.door door hdoor
  refine { h with covered := fun o' ho' hlt => ?_, door := ?_ }
  · rcases h.covered o' ho' hlt with hsettled | hpending
    · exact .inl hsettled
    · by_cases heq : o' = o
      · exact .inl (heq ▸ ho)
      · refine .inr ?_
        simp only [Consumer.offsets, hdoor, Option.elim_some] at hpending ⊢
        rw [removeOffset_offsets _ _ hbelow.commitPerMessage]
        exact Finset.mem_erase.2 ⟨fun heq' => heq (Int.ofNat.inj heq'), hpending⟩
  · rintro _ ⟨⟩
    exact (hbelow.removeOffset _).1

/-- What the door commits when a record has been removed lies behind settled records only. -/
theorem settled_of_lt {c' : Consumer} (h : c'.Covers log logEnd settled reach) {door : SlidingDoor}
    (hdoor : c'.door = some door) {m : MessageOffset} (hlt : m.offset < reach)
    (hpending : ∀ a ∈ door.offsets, m.offset < a) :
    (m.offset + 1).toNat ≤ logEnd ∧ ∀ o ∈ log, o < (m.offset + 1).toNat → o ∈ settled := by
  have hle := h.reach_le
  refine ⟨by omega, fun o ho hlt' => ?_⟩
  rcases h.covered o ho (by omega) with hsettled | hin
  · exact hsettled
  · simp only [Consumer.offsets, hdoor, Option.elim_some] at hin
    have := hpending _ hin
    omega

end Consumer.Covers

namespace Partition

variable {s s' : Partition}

/-- The records of which the group needs to know nothing any more. -/
def settled (s : Partition) : Finset Nat := s.handled ∪ s.givenUp

theorem mem_settled {o : Nat} : o ∈ s.settled ↔ o ∈ s.handled ∨ o ∈ s.givenUp := Finset.mem_union

/-- A partition whose doors commit up to the first pending offset, from the first record on. -/
structure Safe (s : Partition) : Prop where
  commitPerMessage : s.commitPerMessage = false
  autoOffsetReset : s.autoOffsetReset = .earliest
  log : s.log.Pairwise (· < ·)
  log_lt : ∀ o ∈ s.log, o < s.logEnd
  committed : ∀ position, s.committed = some position →
    position ≤ s.logEnd ∧ ∀ o ∈ s.log, o < position → o ∈ s.settled
  consumers : ∀ i, ∃ reach, (s.consumers i).Covers s.log s.logEnd s.settled reach

theorem safe_init : (init false .earliest).Safe where
  commitPerMessage := rfl
  autoOffsetReset := rfl
  log := .nil
  log_lt := by simp [init]
  committed := by simp [init]
  consumers _ := ⟨0, .new⟩

theorem Safe.modifyConsumer (h : s.Safe) (i : Nat) {f : Consumer → Consumer}
    (hf : ∀ reach, (s.consumers i).Covers s.log s.logEnd s.settled reach →
      ∃ reach, (f (s.consumers i)).Covers s.log s.logEnd s.settled reach) :
    (s.modifyConsumer i f).Safe where
  __ := h
  consumers j := by
    by_cases hij : j = i
    · subst hij
      rw [modifyConsumer_self]
      obtain ⟨reach, hcovers⟩ := h.consumers j
      exact hf reach hcovers
    · rw [modifyConsumer_of_ne hij]
      exact h.consumers j

theorem Safe.setOwner (h : s.Safe) (owner : Option Nat) : Safe { s with owner } := { h with }

/-- More is settled. -/
theorem Safe.settle (h : s.Safe) {handled givenUp : Finset Nat} (hhandled : s.handled ⊆ handled)
    (hgivenUp : s.givenUp ⊆ givenUp) : Safe { s with handled, givenUp } := by
  have hsettled : s.settled ⊆ settled { s with handled, givenUp } :=
    Finset.union_subset_union hhandled hgivenUp
  refine { h with committed := fun position hposition => ?_, consumers := fun i => ?_ }
  · obtain ⟨hle, hbelow⟩ := h.committed position hposition
    exact ⟨hle, fun o ho hlt => hsettled (hbelow o ho hlt)⟩
  · obtain ⟨reach, hcovers⟩ := h.consumers i
    exact ⟨reach, hcovers.mono hsettled⟩

theorem Safe.append (h : s.Safe) (gap : Nat) :
    Safe { s with log := s.log ++ [s.logEnd + gap], logEnd := s.logEnd + gap + 1 } where
  __ := h
  log := by
    refine List.pairwise_append.2 ⟨h.log, List.pairwise_singleton _ _, fun o ho o' ho' => ?_⟩
    rw [List.mem_singleton.1 ho']
    have := h.log_lt o ho
    omega
  log_lt o ho := by
    show o < s.logEnd + gap + 1
    rcases List.mem_append.1 ho with ho | ho
    · have := h.log_lt o ho
      omega
    · rw [List.mem_singleton.1 ho]
      omega
  committed position hposition := by
    obtain ⟨hle, hbelow⟩ := h.committed position hposition
    refine ⟨show position ≤ s.logEnd + gap + 1 by omega, fun o ho hlt => ?_⟩
    rcases List.mem_append.1 ho with ho | ho
    · exact hbelow o ho hlt
    · rw [List.mem_singleton.1 ho] at hlt
      omega
  consumers i := by
    obtain ⟨reach, hcovers⟩ := h.consumers i
    exact ⟨reach, hcovers.append gap⟩

/-- A consumer begins where everything before is settled. -/
theorem Safe.startingOffset (h : s.Safe) (position : Nat)
    (hposition : s.startingOffset = some position) :
    position ≤ s.logEnd ∧ ∀ o ∈ s.log, o < position → o ∈ s.settled := by
  unfold Partition.startingOffset at hposition
  split at hposition
  · next hcommitted =>
    cases hposition
    exact h.committed position hcommitted
  · cases hposition
    exact ⟨Nat.zero_le _, fun o _ hlt => absurd hlt (Nat.not_lt_zero o)⟩
  · next hreset =>
    rw [h.autoOffsetReset] at hreset
    cases hreset
  · cases hposition

theorem Safe.poll (h : s.Safe) {i : Nat} (hs : s.pollMessages i = some s') : s'.Safe := by
  obtain ⟨next, hnext, hs⟩ := Option.bind_eq_some_iff.1 hs
  obtain ⟨o, hfind, rfl⟩ := Option.map_eq_some_iff.1 hs
  obtain ⟨hmem, -, hleast⟩ := find_next h.log hfind
  rw [h.commitPerMessage]
  exact h.modifyConsumer i fun _ hcovers => ⟨_, hcovers.poll h.log_lt hnext hmem hleast⟩

theorem Safe.finishConsumingMessage (h : s.Safe) (i : Nat) {o : Nat} (ho : o ∈ s.settled)
    (accepted : Bool) : (s.finishConsumingMessage i o accepted).Safe := by
  unfold Partition.finishConsumingMessage
  cases hdoor : (s.consumers i).door with
  | none => exact h
  | some door =>
    obtain ⟨reach, hcovers⟩ := h.consumers i
    have hcommit := ((hcovers.door door hdoor).removeOffset (messageOffset o)).2
    have hremoved := hcovers.removeOffset hdoor ho
    have hsafe := h.modifyConsumer i (f := fun c =>
      { c with door := some (door.removeOffset (messageOffset o)).1 }) fun _ _ => ⟨reach, hremoved⟩
    simp only
    cases houtcome : (door.removeOffset (messageOffset o)).2 with
    | argumentException => exact hsafe
    | returned committed =>
      cases committed with
      | none => exact hsafe
      | some m =>
        obtain ⟨hlt, hpending⟩ := hcommit m houtcome
        cases accepted with
        | false => exact hsafe
        | true =>
          refine { hsafe with committed := ?_ }
          rintro _ ⟨⟩
          exact hremoved.settled_of_lt rfl hlt hpending

theorem Safe.step (h : s.Safe) {a : Action} (hs : s.step a = some s') : s'.Safe := by
  cases a with
  | append gap =>
    cases hs
    exact h.append gap
  | assign i =>
    cases hs
    exact (h.setOwner _).modifyConsumer i fun _ hcovers => hcovers.setNext h.startingOffset
  | revoke i =>
    cases hs
    exact h.modifyConsumer i fun _ hcovers => hcovers.setNext (by simp)
  | stop i =>
    cases hs
    exact h.modifyConsumer i fun _ hcovers => ⟨0, hcovers.stop⟩
  | poll i => exact h.poll hs
  | handle i o =>
    simp only [Partition.step] at hs
    split at hs
    · cases hs
      have hsettled := h.settle (Finset.subset_insert o s.handled) (Finset.Subset.refl s.givenUp)
      refine hsettled.modifyConsumer i fun reach hcovers =>
        ⟨reach, { hcovers with done := fun o' ho' => ?_ }⟩
      rcases Multiset.mem_cons.1 ho' with rfl | ho'
      · exact mem_settled.2 (.inl (Finset.mem_insert_self _ _))
      · exact hcovers.done o' ho'
    · cases hs
  | finish i o accepted =>
    simp only [Partition.step] at hs
    split at hs
    · next ho =>
      cases hs
      obtain ⟨_, hsettled⟩ := h.consumers i
      refine Safe.finishConsumingMessage (h.modifyConsumer i fun reach hcovers =>
        ⟨reach, { hcovers with done := fun o' ho' => ?_ }⟩) i (hsettled.done o ho) accepted
      exact hcovers.done o' (Multiset.mem_of_mem_erase ho')
    · cases hs
  | giveUp i o accepted =>
    simp only [Partition.step] at hs
    split at hs
    · cases hs
      have hsettled := h.settle (Finset.Subset.refl s.handled) (Finset.subset_insert o s.givenUp)
      exact Safe.finishConsumingMessage (hsettled.modifyConsumer i fun reach hcovers =>
        ⟨reach, { hcovers with }⟩) i (mem_settled.2 (.inr (Finset.mem_insert_self _ _))) accepted
    · cases hs

/-- Without a position nobody polls, and nobody commits. -/
structure Idle (s : Partition) : Prop where
  autoOffsetReset : s.autoOffsetReset = .error
  committed : s.committed = none
  consumers : ∀ i, s.consumers i = .new

theorem Idle.modifyConsumer (h : s.Idle) (i : Nat) {f : Consumer → Consumer} (hf : f .new = .new) :
    (s.modifyConsumer i f).Idle where
  __ := h
  consumers j := by
    by_cases hij : j = i
    · subst hij
      rw [modifyConsumer_self, h.consumers j, hf]
    · rw [modifyConsumer_of_ne hij]
      exact h.consumers j

theorem Idle.step (h : s.Idle) {a : Action} (hs : s.step a = some s') : s'.Idle := by
  cases a with
  | append gap =>
    cases hs
    exact { h with }
  | assign i =>
    cases hs
    have hstart : s.startingOffset = none := by
      simp [startingOffset, h.committed, h.autoOffsetReset]
    have hidle : Idle { s with owner := some i } := { h with }
    exact hidle.modifyConsumer i (by rw [hstart]; rfl)
  | revoke i =>
    cases hs
    exact h.modifyConsumer i rfl
  | stop i =>
    cases hs
    exact h.modifyConsumer i rfl
  | poll i => simp [Partition.step, pollMessages, h.consumers i, Consumer.new] at hs
  | handle i o => simp [Partition.step, h.consumers i, Consumer.new] at hs
  | finish i o accepted => simp [Partition.step, h.consumers i, Consumer.new] at hs
  | giveUp i o accepted => simp [Partition.step, h.consumers i, Consumer.new] at hs

/-- The first record is polled and not handled when the second one is finished. -/
def overtaken : List Action :=
  [.assign 0, .append 0, .append 0, .poll 0, .poll 0, .handle 0 1, .finish 0 1 true]

/-- The first record is there before the first consumer. -/
def skipped : List Action :=
  [.append 0, .assign 0, .append 0, .poll 0, .handle 0 1, .finish 0 1 true]

/-- The position of the group never passes a record that has neither been handled nor given up, in
any run, exactly if nobody begins without a position, or the group begins with the first record and
the doors do not commit each message for itself. -/
theorem position_safe_iff (commitPerMessage : Bool) (autoOffsetReset : AutoOffsetReset) :
    (∀ (actions : List Action) (s : Partition),
        run Partition.step (init commitPerMessage autoOffsetReset) actions = some s →
          ∀ position, s.committed = some position → ∀ o ∈ s.log, o < position →
            o ∈ s.handled ∨ o ∈ s.givenUp) ↔
      autoOffsetReset = .error ∨ autoOffsetReset = .earliest ∧ commitPerMessage = false := by
  constructor
  · intro h
    -- both runs end with the position behind the first record, which nobody has handled
    have hnot : ∀ actions, (run Partition.step (init commitPerMessage autoOffsetReset) actions).map
        (fun s => (s.committed, s.log, s.handled, s.givenUp)) ≠
          some (some 2, [0, 1], {1}, ∅) := by
      intro actions hfacts
      obtain ⟨s, hrun, hs⟩ := Option.map_eq_some_iff.1 hfacts
      simp only [Prod.mk.injEq] at hs
      obtain ⟨hcommitted, hlog, hhandled, hgivenUp⟩ := hs
      have hzero := h _ s hrun 2 hcommitted 0 (by simp [hlog]) (by omega)
      simp [hhandled, hgivenUp] at hzero
    cases autoOffsetReset with
    | error => exact .inl rfl
    | latest =>
      cases commitPerMessage with
      | false => exact absurd (by decide +kernel) (hnot skipped)
      | true => exact absurd (by decide +kernel) (hnot skipped)
    | earliest =>
      cases commitPerMessage with
      | false => exact .inr ⟨rfl, rfl⟩
      | true => exact absurd (by decide +kernel) (hnot overtaken)
  · rintro (rfl | ⟨rfl, rfl⟩) actions s hrun position hposition
    · have hidle : s.Idle := run_invariant Idle (fun _ _ _ h hs => h.step hs)
        ⟨rfl, rfl, fun _ => rfl⟩ hrun
      rw [hidle.committed] at hposition
      cases hposition
    · have hsafe : s.Safe := run_invariant Safe (fun _ _ _ h hs => h.step hs) safe_init hrun
      exact fun o ho hlt => mem_settled.1 ((hsafe.committed position hposition).2 o ho hlt)

end Partition

end IFramework.MessageQueue
