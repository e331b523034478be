import IFramework.MessageQueue.AtLeastOnce
import IFramework.MessageQueue.Retained

/-!
# What a restart brings again

A consumer that gets the partition polls from the position of the group. When there are no gaps,
the consumer has a new door, and its commits are accepted while those of the consumers before it are
not, the position is up to the first record that it has not finished: a restart brings no record
again but those and what has been polled behind them (`redelivers_behind_pending`). Without one of
these conditions it is not so. A door does not commit an offset that it has not seen, a rejected
commit is not tried again, and a late one takes the position back.
-/

namespace IFramework.MessageQueue

open Machine SlidingDoor

namespace Partition

/-- The position, from the first record on. -/
def position (s : Partition) : Nat := s.committed.getD 0

/-- There are no gaps, a consumer that gets the partition has neither a door nor tasks of it, and
the broker accepts what the one that got it last commits, and nothing else. -/
def Smooth (s : Partition) : Action → Prop
  | .append gap => gap = 0
  | .assign i => (s.consumers i).door.isNone = true ∧ (s.consumers i).unfinished = 0
  | .finish i _ accepted => accepted = true ↔ s.owner = some i
  | .giveUp i _ accepted => accepted = true ↔ s.owner = some i
  | .revoke _ => True
  | .stop _ => True
  | .poll _ => True
  | .handle _ _ => True

instance (s : Partition) : DecidablePred s.Smooth
  | .append gap => inferInstanceAs (Decidable (gap = 0))
  | .assign i => inferInstanceAs
      (Decidable ((s.consumers i).door.isNone = true ∧ (s.consumers i).unfinished = 0))
  | .finish i _ accepted => inferInstanceAs (Decidable (accepted = true ↔ s.owner = some i))
  | .giveUp i _ accepted => inferInstanceAs (Decidable (accepted = true ↔ s.owner = some i))
  | .revoke _ => isTrue trivial
  | .stop _ => isTrue trivial
  | .poll _ => isTrue trivial
  | .handle _ _ => isTrue trivial

end Partition

/-- A consumer that began to poll at `start`, with a new door, is going to poll `next`, and commits
with success; its door and what the calls of it have done. The position is close behind what is
pending. -/
structure Consumer.Close (logEnd position : Nat) (c : Consumer) (start next : Nat)
    (session : Session) : Prop where
  next_eq : ∀ n, c.next = some n → n = next
  start_le_next : start ≤ next
  next_le : next ≤ logEnd
  door : c.door.getD (.new false) = session.door
  ordered : Ordered session
  added : ∀ a, a ∈ session.ledger.added ↔ ∃ o : Nat, a = (o : Int) ∧ start ≤ o ∧ o < next
  nodup : c.unfinished.Nodup
  pending : ∀ a, a ∈ session.ledger.pending ↔ ∃ o ∈ c.unfinished, a = (o : Int)
  start_le : start ≤ position
  position_eq : position = start ∨ ∃ m ∈ session.ledger.commits, (position : Int) = m.offset + 1
  caughtUp : ∀ o : Nat, start ≤ o → o < next →
    (∀ p ∈ session.ledger.pending, (o : Int) < p) → o < position

namespace Consumer.Close

variable {logEnd logEnd' position start next : Nat} {c : Consumer} {session : Session}

/-- A consumer without a door and tasks begins at the position. -/
theorem init (hdoor : c.door.isNone = true) (hunfinished : c.unfinished = 0)
    (hle : position ≤ logEnd) :
    Close logEnd position { c with next := some position } position position Session.init where
  next_eq := by rintro _ ⟨⟩; rfl
  start_le_next := le_rfl
  next_le := hle
  door := by rw [Option.isNone_iff_eq_none.1 hdoor]; rfl
  ordered := .init
  added a := by
    simp only [Session.init, Finset.notMem_empty, false_iff, not_exists, not_and]
    intro o _ _
    omega
  nodup := by
    show c.unfinished.Nodup
    rw [hunfinished]
    exact Multiset.nodup_zero
  pending a := by
    have hnone : ¬∃ o ∈ c.unfinished, a = (o : Int) := by simp [hunfinished]
    exact iff_of_false (Finset.notMem_empty a) hnone
  start_le := le_rfl
  position_eq := .inl rfl
  caughtUp o hstart hlt _ := absurd hlt (Nat.not_lt.2 hstart)

theorem mono (h : Close logEnd position c start next session) (hle : logEnd ≤ logEnd') :
    Close logEnd' position c start next session where
  __ := h
  next_le := h.next_le.trans hle

/-- What the consumer has not finished is not behind the position. -/
theorem position_le (h : Close logEnd position c start next session) {o : Nat}
    (ho : o ∈ c.unfinished) : position ≤ o := by
  have hpending : (o : Int) ∈ session.ledger.pending := (h.pending o).2 ⟨o, ho, rfl⟩
  rcases h.position_eq with hstart | ⟨m, hm, hoffset⟩
  · have hadded : (o : Int) ∈ session.ledger.added := by
      rw [h.ordered.added]
      exact Finset.mem_union_left _ hpending
    obtain ⟨o', heq, hle, -⟩ := (h.added _).1 hadded
    omega
  · have := h.ordered.commit_lt_pending hpending hm
    omega

theorem poll (h : Close logEnd position c start next session) (hlt : next < logEnd) :
    ∃ session, Close logEnd position
      { c with
        door := some ((c.door.getD (.new false)).addOffset next)
        next := some (next + 1)
        running := next ::ₘ c.running } start (next + 1) session := by
  have hnew : ∀ a ∈ session.ledger.added, a < (next : Int) := by
    intro a ha
    obtain ⟨o, rfl, -, hlt'⟩ := (h.added a).1 ha
    omega
  have hfresh : next ∉ c.unfinished := by
    intro hmem
    have hadded : (next : Int) ∈ session.ledger.added := by
      rw [h.ordered.added]
      exact Finset.mem_union_left _ ((h.pending next).2 ⟨next, hmem, rfl⟩)
    exact lt_irrefl _ (hnew _ hadded)
  have hunfinished : (next ::ₘ c.running) + c.done = next ::ₘ c.unfinished :=
    Multiset.cons_add _ _ _
  have hstart := h.start_le_next
  obtain ⟨session', hstep⟩ : ∃ session', step session (.addOffset next) = some session' := ⟨_, rfl⟩
  have hordered := h.ordered.addOffset hnew hstep
  cases hstep
  refine ⟨_, ⟨?_, by omega, hlt, ?_, hordered, fun a => ?_, ?_, fun a => ?_, h.start_le,
    h.position_eq, fun o hle hlt' hbelow => ?_⟩⟩
  · rintro _ ⟨⟩
    rfl
  · simp [h.door]
  · rw [Finset.mem_insert, h.added]
    constructor
    · rintro (rfl | ⟨o, rfl, hle, hlt'⟩)
      · exact ⟨next, rfl, hstart, Nat.lt_succ_self next⟩
      · exact ⟨o, rfl, hle, by omega⟩
    · rintro ⟨o, rfl, hle, hlt'⟩
      by_cases hold : o < next
      · exact .inr ⟨o, rfl, hle, hold⟩
      · exact .inl (by omega)
  · show ((next ::ₘ c.running) + c.done).Nodup
    rw [hunfinished]
    exact Multiset.nodup_cons.2 ⟨hfresh, h.nodup⟩
  · show a ∈ insert (next : Int) session.ledger.pending ↔
      ∃ o ∈ (next ::ₘ c.running) + c.done, a = (o : Int)
    rw [hunfinished, Finset.mem_insert, h.pending]
    simp [Multiset.mem_cons]
  · have hbelow : ∀ p ∈ insert (next : Int) session.ledger.pending, (o : Int) < p := hbelow
    have hlast := hbelow next (Finset.mem_insert_self _ _)
    exact h.caughtUp o hle (by omega) fun p hp => hbelow p (Finset.mem_insert_of_mem hp)

theorem exists_door (h : Close logEnd position c start next session) {o : Nat}
    (ho : o ∈ c.unfinished) : ∃ door, c.door = some door ∧ door = session.door := by
  have hdoor := h.door
  cases hc : c.door with
  | some door =>
    rw [hc] at hdoor
    exact ⟨door, rfl, hdoor⟩
  | none =>
    rw [hc] at hdoor
    have hpending : (o : Int) ∈ session.door.offsets := by
      rw [h.ordered.pending]
      exact (h.pending o).2 ⟨o, ho, rfl⟩
    rw [← hdoor] at hpending
    cases hpending

/-- When the first pending offset is removed, the offset before the next one is looked up, and it is
one that was added. -/
theorem consumedOf_mem (h : Close logEnd position c start next session) {o : Nat}
    (ho : (o : Int) ∈ session.ledger.pending)
    (hleast : ∀ p ∈ session.ledger.pending.erase (o : Int), (o : Int) < p) :
    consumedOf (session.ledger.pending.erase (o : Int)) session.door.lastOffset ∈
      session.ledger.added := by
  have hpending : ∀ p ∈ session.ledger.pending, p ∈ session.ledger.added := by
    intro p hp
    rw [h.ordered.added]
    exact Finset.mem_union_left _ hp
  unfold consumedOf
  split
  · next hne =>
    have hmin := Finset.min'_mem _ hne
    obtain ⟨o₁, ho₁, -, hlt⟩ := (h.added _).1 (hpending _ (Finset.mem_of_mem_erase hmin))
    obtain ⟨o₀, ho₀, hstart, -⟩ := (h.added _).1 (hpending _ ho)
    have hless := hleast _ hmin
    rw [ho₁] at hless ⊢
    exact (h.added _).2 ⟨o₁ - 1, by omega, by omega, by omega⟩
  · exact h.ordered.lastOffset_mem _ (hpending _ ho)

/-- When nothing is committed, what is removed is not the first pending offset. -/
theorem exists_pending_lt (h : Close logEnd position c start next session) {o : Nat}
    (ho : (o : Int) ∈ session.ledger.pending) {removed : SortedList Int MessageOffset}
    (hadd : session.door.removedMessageOffsets.add o (Partition.messageOffset o) = some removed)
    (hcommit : (session.door.finish o removed).commitConsumed.2 = none) :
    ∃ p ∈ session.ledger.pending.erase (o : Int), p < (o : Int) := by
  by_contra hnot
  have hleast : ∀ p ∈ session.ledger.pending.erase (o : Int), (o : Int) < p := by
    intro p hp
    have hge : ¬p < (o : Int) := fun hlt => hnot ⟨p, hp, hlt⟩
    have hne := Finset.ne_of_mem_erase hp
    omega
  have hmem := h.consumedOf_mem ho hleast
  have hnonneg : 0 ≤ consumedOf (session.ledger.pending.erase (o : Int))
      session.door.lastOffset := by
    obtain ⟨n, hn, -⟩ := (h.added _).1 hmem
    omega
  obtain ⟨m, hm⟩ := (commits_iff_of_least h.ordered.toIncreasing
    (m := Partition.messageOffset o) ho hleast hadd).2 ⟨hmem, hnonneg⟩
  cases hcommit.symm.trans hm

/-- What the door does when it removes a pending offset. -/
theorem removeOffset_spec {session : Session} {m : MessageOffset} (h : Ordered session)
    (hm : m.offset ∈ session.ledger.pending) :
    ∃ session' removed, session.door.removedMessageOffsets.add m.offset m = some removed ∧
      Ordered session' ∧
      session.door.removeOffset m =
        (session'.door, .returned (session.door.finish m.offset removed).commitConsumed.2) ∧
      session'.ledger =
        { session.ledger with
          pending := session.ledger.pending.erase m.offset
          removed := insert m.offset session.ledger.removed
          commits := session.ledger.commits ++
            (session.door.finish m.offset removed).commitConsumed.2.toList } := by
  obtain ⟨session', hstep⟩ := h.removeOffset_returns hm
  obtain ⟨removed, hadd, hdoor, hledger⟩ := h.removeOffset_pending hm hstep
  have hmem : m.offset ∈ session.door.offsets := by rwa [h.pending]
  refine ⟨session', removed, hadd, h.removeOffset hm hstep, ?_, hledger⟩
  rw [hdoor]
  simp [SlidingDoor.removeOffset, h.commitPerMessage, hmem, hadd]

/-- A record is finished, and what the door commits is accepted. -/
theorem finish (h : Close logEnd position c start next session) {o : Nat}
    (ho : o ∈ c.unfinished) :
    ∃ session' committed, session.door.removeOffset (Partition.messageOffset o) =
        (session'.door, .returned committed) ∧
      ∀ c' : Consumer, c'.unfinished = c.unfinished.erase o → c'.next = c.next →
        c'.door = some session'.door →
          Close logEnd (committed.elim position fun m => (m.offset + 1).toNat) c' start next
            session' := by
  have hpending : (o : Int) ∈ session.ledger.pending := (h.pending o).2 ⟨o, ho, rfl⟩
  obtain ⟨session', removed, hadd, hordered, hremove, hledger⟩ :=
    removeOffset_spec (m := Partition.messageOffset o) h.ordered hpending
  refine ⟨session', _, hremove, fun c' hunfinished hnext hdoor => ?_⟩
  have hkept : ∀ a, a ∈ session'.ledger.pending ↔ ∃ o' ∈ c'.unfinished, a = (o' : Int) := by
    intro a
    rw [hledger, hunfinished]
    simp only [Finset.mem_erase, h.pending, h.nodup.mem_erase_iff, Partition.messageOffset]
    constructor
    · rintro ⟨hne, o', ho', rfl⟩
      exact ⟨o', ⟨fun heq => hne (heq ▸ rfl), ho'⟩, rfl⟩
    · rintro ⟨o', ⟨hne, ho'⟩, rfl⟩
      exact ⟨fun heq => hne (Int.ofNat.inj heq), o', ho', rfl⟩
  have hadded : session'.ledger.added = session.ledger.added := by rw [hledger]
  have hnodup : c'.unfinished.Nodup := hunfinished ▸ h.nodup.erase o
  have hnext' : ∀ n, c'.next = some n → n = next := fun n hn => h.next_eq n (hnext ▸ hn)
  have hdoor' : c'.door.getD (.new false) = session'.door := by rw [hdoor]; rfl
  cases hcommit : (session.door.finish (Partition.messageOffset o).offset
      removed).commitConsumed.2 with
  | none =>
    refine ⟨hnext', h.start_le_next, h.next_le, hdoor', hordered, hadded ▸ h.added, hnodup, hkept,
      h.start_le, ?_, fun o' hstart hlt hbelow => ?_⟩
    · refine h.position_eq.imp_right fun ⟨m, hm, hoffset⟩ => ⟨m, ?_, hoffset⟩
      rw [hledger]
      exact List.mem_append_left _ hm
    · obtain ⟨p, hp, hless⟩ := h.exists_pending_lt hpending hadd hcommit
      rw [hledger] at hbelow
      refine h.caughtUp o' hstart hlt fun q hq => ?_
      by_cases hqo : q = o
      · have := hbelow p hp
        omega
      · exact hbelow q (Finset.mem_erase.2 ⟨hqo, hq⟩)
  | some m =>
    obtain ⟨-, hentry⟩ := commitConsumed_some _ hcommit
    obtain ⟨hlookup, hremoved⟩ := h.ordered.toCursors.mem_finish hadd hentry
    have hoffset : m.offset = consumedOf (session.ledger.pending.erase (o : Int))
        session.door.lastOffset :=
      hlookup.trans (h.ordered.toCursors.consumedOffset_finish removed)
    have hmem : m ∈ session'.ledger.commits := by
      rw [hledger, hcommit]
      simp
    have hnonneg := hordered.commits_nonneg m hmem
    have hstart_le : (start : Int) ≤ m.offset := by
      have hadded : m.offset ∈ session.ledger.added := by
        rw [hlookup, h.ordered.added]
        rcases Finset.mem_insert.1 hremoved with heq | hremoved
        · rw [heq]
          exact Finset.mem_union_left _ hpending
        · exact Finset.mem_union_right _ hremoved
      obtain ⟨n, hn, hle, -⟩ := (h.added _).1 hadded
      omega
    simp only [Option.elim_some]
    refine ⟨hnext', h.start_le_next, h.next_le, hdoor', hordered, hadded ▸ h.added, hnodup, hkept,
      by omega, .inr ⟨m, hmem, by omega⟩, fun o' hstart hlt hbelow => ?_⟩
    have hadded : (o' : Int) ∈ session.ledger.added := (h.added _).2 ⟨o', rfl, hstart, hlt⟩
    rw [hledger] at hbelow
    have hle := le_consumedOf hbelow (h.ordered.le_lastOffset _ hadded)
    have : (o' : Int) ≤ m.offset := hoffset ▸ hle
    omega

/-- The tasks go on, and the consumer polls no more than before. -/
theorem congr (h : Close logEnd position c start next session) {c' : Consumer}
    (hdoor : c'.door = c.door) (hnext : ∀ n, c'.next = some n → c.next = some n)
    (hunfinished : c'.unfinished = c.unfinished) : Close logEnd position c' start next session where
  __ := h
  next_eq n hn := h.next_eq n (hnext n hn)
  door := hdoor ▸ h.door
  nodup := hunfinished ▸ h.nodup
  pending := hunfinished ▸ h.pending

end Consumer.Close

namespace Partition

variable {s s' : Partition}

/-- The consumer that got the partition last is close behind it, or has stopped. -/
def OwnerClose (s : Partition) (i : Nat) : Prop :=
  (∃ start next session, (s.consumers i).Close s.logEnd s.position start next session) ∨
    (s.consumers i).door = none ∧ (s.consumers i).next = none ∧
      ∀ o ∈ (s.consumers i).unfinished, s.position ≤ o

/-- What holds in a run whose steps are all smooth. -/
structure Gapless (s : Partition) : Prop extends Safe s where
  gapless : ∀ o < s.logEnd, o ∈ s.log
  owner : ∀ i, s.owner = some i → s.OwnerClose i

theorem Safe.position_le (h : s.Safe) : s.position ≤ s.logEnd := by
  unfold Partition.position
  cases hcommitted : s.committed with
  | none => exact Nat.zero_le _
  | some position => exact (h.committed position hcommitted).1

theorem Safe.startingOffset_eq (h : s.Safe) : s.startingOffset = some s.position := by
  unfold Partition.startingOffset Partition.position
  rw [h.autoOffsetReset]
  cases s.committed <;> rfl

/-- Nothing that concerns the consumer changes. -/
theorem OwnerClose.frame {j : Nat} (h : s.OwnerClose j) (hlogEnd : s.logEnd ≤ s'.logEnd)
    (hcommitted : s'.committed = s.committed) (hconsumer : s'.consumers j = s.consumers j) :
    s'.OwnerClose j := by
  have hposition : s'.position = s.position := by
    unfold Partition.position
    rw [hcommitted]
  unfold OwnerClose
  rw [hconsumer, hposition]
  exact h.imp_left fun ⟨start, next, session, hclose⟩ => ⟨start, next, session, hclose.mono hlogEnd⟩

/-- The door and what is unfinished stay as they are. -/
theorem OwnerClose.congr {j : Nat} (h : s.OwnerClose j) (hlogEnd : s'.logEnd = s.logEnd)
    (hcommitted : s'.committed = s.committed)
    (hdoor : (s'.consumers j).door = (s.consumers j).door)
    (hnext : ∀ n, (s'.consumers j).next = some n → (s.consumers j).next = some n)
    (hunfinished : (s'.consumers j).unfinished = (s.consumers j).unfinished) : s'.OwnerClose j := by
  have hposition : s'.position = s.position := by
    unfold Partition.position
    rw [hcommitted]
  unfold OwnerClose
  rw [hlogEnd, hposition, hunfinished, hdoor]
  rcases h with ⟨start, next, session, hclose⟩ | ⟨hnone, hstopped, hbelow⟩
  · exact .inl ⟨start, next, session, hclose.congr hdoor hnext hunfinished⟩
  · refine .inr ⟨hnone, ?_, hbelow⟩
    rw [Option.eq_none_iff_forall_ne_some]
    intro n hn
    cases hstopped.symm.trans (hnext n hn)

theorem OwnerClose.position_le {j : Nat} (h : s.OwnerClose j) {o : Nat}
    (ho : o ∈ (s.consumers j).unfinished) : s.position ≤ o := by
  rcases h with ⟨start, next, session, hclose⟩ | ⟨-, -, hbelow⟩
  · exact hclose.position_le ho
  · exact hbelow o ho

/-- What `FinishConsumingMessage` does not touch. -/
theorem finishConsumingMessage_frame (s : Partition) (i o : Nat) (accepted : Bool) :
    let s' := s.finishConsumingMessage i o accepted
    s'.log = s.log ∧ s'.logEnd = s.logEnd ∧ s'.owner = s.owner ∧
      (accepted = false → s'.committed = s.committed) ∧
        ∀ j ≠ i, s'.consumers j = s.consumers j := by
  unfold finishConsumingMessage
  cases (s.consumers i).door with
  | none => exact ⟨rfl, rfl, rfl, fun _ => rfl, fun _ _ => rfl⟩
  | some door =>
    simp only
    cases (door.removeOffset (messageOffset o)).2 with
    | argumentException => exact ⟨rfl, rfl, rfl, fun _ => rfl, fun _ hj => modifyConsumer_of_ne hj⟩
    | returned committed =>
      cases committed with
      | none => exact ⟨rfl, rfl, rfl, fun _ => rfl, fun _ hj => modifyConsumer_of_ne hj⟩
      | some m =>
        cases accepted with
        | false =>
          refine ⟨rfl, rfl, rfl, fun _ => rfl, fun j hj => ?_⟩
          simp [commitOffsetAsync, modifyConsumer_of_ne hj]
        | true =>
          refine ⟨rfl, rfl, rfl, fun hrejected => (by cases hrejected), fun j hj => ?_⟩
          simp [commitOffsetAsync, modifyConsumer_of_ne hj]

/-- A record is finished that the consumer has no longer among the unfinished ones. -/
theorem OwnerClose.finish {i o : Nat} (h : s.OwnerClose i) (ho : o ∈ (s.consumers i).unfinished)
    (hlogEnd : s'.logEnd = s.logEnd) (hcommitted : s'.committed = s.committed)
    (hdoor : (s'.consumers i).door = (s.consumers i).door)
    (hnext : (s'.consumers i).next = (s.consumers i).next)
    (hunfinished : (s'.consumers i).unfinished = (s.consumers i).unfinished.erase o) :
    OwnerClose (s'.finishConsumingMessage i o true) i := by
  have hposition : s'.position = s.position := by
    unfold Partition.position
    rw [hcommitted]
  rcases h with ⟨start, next, session, hclose⟩ | ⟨hnone, hstopped, hbelow⟩
  · obtain ⟨door, hsome, rfl⟩ := hclose.exists_door ho
    obtain ⟨session', committed, hremove, hclose'⟩ := hclose.finish ho
    rw [← hposition, ← hlogEnd] at hclose'
    refine .inl ⟨start, next, session', ?_⟩
    unfold finishConsumingMessage
    rw [hdoor, hsome]
    simp only [hremove]
    cases committed with
    | none =>
      refine hclose' _ ?_ ?_ ?_ <;> rw [modifyConsumer_self]
      · exact hunfinished
      · exact hnext
    | some m =>
      have heq : ∀ s'' : Partition, (s''.commitOffsetAsync true m).consumers = s''.consumers :=
        fun _ => rfl
      refine hclose' _ ?_ ?_ ?_ <;> rw [heq, modifyConsumer_self]
      · exact hunfinished
      · exact hnext
  · unfold finishConsumingMessage
    rw [hdoor, hnone]
    refine .inr ⟨hdoor.trans hnone, hnext.trans hstopped, fun o' ho' => ?_⟩
    rw [hposition]
    rw [hunfinished] at ho'
    exact hbelow o' (Multiset.mem_of_mem_erase ho')

/-- A task or the callback finishes a record, and only what the consumer that got the partition last
commits is accepted. -/
theorem Gapless.finish (h : s.Gapless) {i o : Nat} {accepted : Bool}
    (haccepted : accepted = true ↔ s.owner = some i) (ho : o ∈ (s.consumers i).unfinished)
    (hlog : s'.log = s.log) (hlogEnd : s'.logEnd = s.logEnd)
    (hcommitted : s'.committed = s.committed) (howner : s'.owner = s.owner)
    (hothers : ∀ j ≠ i, s'.consumers j = s.consumers j)
    (hdoor : (s'.consumers i).door = (s.consumers i).door)
    (hnext : (s'.consumers i).next = (s.consumers i).next)
    (hunfinished : (s'.consumers i).unfinished = (s.consumers i).unfinished.erase o)
    (hsafe : (s'.finishConsumingMessage i o accepted).Safe) :
    (s'.finishConsumingMessage i o accepted).Gapless := by
  obtain ⟨hlog', hlogEnd', howner', hcommitted', hothers'⟩ :=
    finishConsumingMessage_frame s' i o accepted
  refine ⟨hsafe, ?_, fun j hj => ?_⟩
  · rw [hlog', hlogEnd', hlog, hlogEnd]
    exact h.gapless
  · rw [howner', howner] at hj
    by_cases hji : j = i
    · subst hji
      obtain rfl : accepted = true := haccepted.2 hj
      exact (h.owner j hj).finish ho hlogEnd hcommitted hdoor hnext hunfinished
    · have hfalse : accepted = false := by
        rw [Bool.eq_false_iff]
        intro htrue
        exact hji (Option.some.inj (hj.symm.trans (haccepted.1 htrue)))
      exact (h.owner j hj).frame (by rw [hlogEnd', hlogEnd])
        ((hcommitted' hfalse).trans hcommitted) ((hothers' j hji).trans (hothers j hji))

theorem Gapless.append (h : s.Gapless) :
    Gapless { s with log := s.log ++ [s.logEnd + 0], logEnd := s.logEnd + 0 + 1 } where
  toSafe := h.toSafe.append 0
  gapless o ho := by
    have ho : o < s.logEnd + 0 + 1 := ho
    by_cases hlt : o < s.logEnd
    · exact List.mem_append_left _ (h.gapless o hlt)
    · obtain rfl : o = s.logEnd := by omega
      simp
  owner j hj := (h.owner j hj).frame (by show s.logEnd ≤ s.logEnd + 0 + 1; omega) rfl rfl

theorem Gapless.poll (h : s.Gapless) {i : Nat} (hs : s.pollMessages i = some s') : s'.Gapless := by
  have hsafe := h.toSafe.poll hs
  obtain ⟨next, hnext, hs⟩ := Option.bind_eq_some_iff.1 hs
  obtain ⟨o, hfind, rfl⟩ := Option.map_eq_some_iff.1 hs
  obtain ⟨hmem, hle, hleast⟩ := find_next h.log hfind
  refine ⟨hsafe, h.gapless, fun j hj => ?_⟩
  by_cases hji : j = i
  · subst hji
    rcases h.owner j hj with ⟨start, next', session, hclose⟩ | ⟨-, hstopped, -⟩
    · obtain rfl := hclose.next_eq next hnext
      have hlt := h.log_lt o hmem
      obtain rfl : o = next :=
        le_antisymm (hleast next (h.gapless next (by omega)) le_rfl) hle
      obtain ⟨session', hclose'⟩ := hclose.poll hlt
      refine .inl ⟨start, o + 1, session', ?_⟩
      rw [modifyConsumer_self, h.commitPerMessage]
      exact hclose'
    · cases hstopped.symm.trans hnext
  · exact (h.owner j hj).frame le_rfl rfl (modifyConsumer_of_ne hji)

theorem Gapless.step (h : s.Gapless) {a : Action} (ha : s.Smooth a) (hs : s.step a = some s') :
    s'.Gapless := by
  have hsafe := h.toSafe.step hs
  cases a with
  | append gap =>
    cases ha
    cases hs
    exact h.append
  | assign i =>
    cases hs
    refine ⟨hsafe, h.gapless, ?_⟩
    rintro _ ⟨⟩
    refine .inl ⟨s.position, s.position, Session.init, ?_⟩
    rw [modifyConsumer_self, h.startingOffset_eq]
    exact .init ha.1 ha.2 h.position_le
  | revoke i =>
    cases hs
    refine ⟨hsafe, h.gapless, fun j hj => ?_⟩
    by_cases hji : j = i
    · subst hji
      refine (h.owner j hj).congr rfl rfl ?_ ?_ ?_ <;> rw [modifyConsumer_self]
      · rintro _ ⟨⟩
      · rfl
    · exact (h.owner j hj).frame le_rfl rfl (modifyConsumer_of_ne hji)
  | stop i =>
    cases hs
    refine ⟨hsafe, h.gapless, fun j hj => ?_⟩
    by_cases hji : j = i
    · subst hji
      refine .inr ?_
      rw [modifyConsumer_self]
      exact ⟨rfl, rfl, fun o ho => (h.owner j hj).position_le ho⟩
    · exact (h.owner j hj).frame le_rfl rfl (modifyConsumer_of_ne hji)
  | poll i => exact h.poll hs
  | handle i o =>
    simp only [Partition.step] at hs
    split at hs
    · next ho =>
      cases hs
      refine ⟨hsafe, h.gapless, fun j hj => ?_⟩
      by_cases hji : j = i
      · subst hji
        refine (h.owner j hj).congr rfl rfl ?_ ?_ ?_ <;> rw [modifyConsumer_self]
        · exact fun n hn => hn
        · show (s.consumers j).running.erase o + (o ::ₘ (s.consumers j).done) =
            (s.consumers j).running + (s.consumers j).done
          rw [Multiset.add_cons, ← Multiset.cons_add, Multiset.cons_erase ho]
      · exact (h.owner j hj).frame le_rfl rfl (modifyConsumer_of_ne hji)
    · cases hs
  | finish i o accepted =>
    simp only [Partition.step] at hs
    split at hs
    · next ho =>
      cases hs
      refine h.finish ha (Multiset.mem_add.2 (.inr ho)) rfl rfl rfl rfl
        (fun j hj => modifyConsumer_of_ne hj) ?_ ?_ ?_ hsafe <;> rw [modifyConsumer_self]
      exact (Multiset.erase_add_right_pos _ ho).symm
    · cases hs
  | giveUp i o accepted =>
    simp only [Partition.step] at hs
    split at hs
    · next ho =>
      cases hs
      refine h.finish ha (Multiset.mem_add.2 (.inl ho)) rfl rfl rfl rfl
        (fun j hj => modifyConsumer_of_ne hj) ?_ ?_ ?_ hsafe <;> rw [modifyConsumer_self]
      exact (Multiset.erase_add_left_pos _ ho).symm
    · cases hs

/-- A rejected commit is not tried again: the position stays behind what is finished. -/
example : (run Partition.step (init false .earliest)
    [.append 0, .assign 0, .poll 0, .handle 0 0, .finish 0 0 false]).map
      (fun s => (s.position, (s.consumers 0).next, (s.consumers 0).unfinished)) =
        some (0, some 1, 0) := by
  decide +kernel

/-- A late commit of a consumer that has lost the partition takes the position back. -/
example : (run Partition.step (init false .earliest)
    [.append 0, .append 0, .assign 0, .poll 0, .handle 0 0, .assign 1, .poll 1, .poll 1,
      .handle 1 0, .handle 1 1, .finish 1 0 true, .finish 1 1 true, .finish 0 0 true]).map
      (fun s => (s.position, (s.consumers 1).next, (s.consumers 1).unfinished)) =
        some (1, some 2, 0) := by
  decide +kernel

end Partition

end IFramework.MessageQueue
