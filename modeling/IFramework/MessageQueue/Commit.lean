import IFramework.MessageQueue.SlidingDoor
import Mathlib.Data.Int.ConditionallyCompleteOrder
import Mathlib.Order.ConditionallyCompleteLattice.Basic

/-!
# What the sliding door commits

`Cursors` says how the three cursors and the two collections of the door relate to the ledger, in
every run; from it follows that no commit skips a pending offset (`commit_safe`).

For offsets that are added in increasing order, `Increasing` makes this exact: the door still has
the finished offsets beyond the last commit, and `CaughtUp` says that the greatest one below all
pending offsets has been committed. A call keeps the door caught up exactly when the offset it looks
up was added (`caughtUp_removeOffset`).
-/

namespace IFramework.MessageQueue

open Machine SlidingDoor

variable {s s' : Session} {calls : List Call} {m : MessageOffset}

/-! ## Safety -/

/-- The cursors and the collections of a door against its ledger. -/
structure Cursors (s : Session) : Prop where
  commitPerMessage : s.door.commitPerMessage = false
  pending : s.door.offsets = s.ledger.pending
  consumed : s.door.consumedOffset ≤ s.door.lastCommittedOffset
  removed : ∀ k m, (k, m) ∈ s.door.removedMessageOffsets.entries →
    m.offset = k ∧ k ∈ s.ledger.removed
  commits : ∀ c ∈ s.ledger.commits, c.offset ≤ s.door.lastCommittedOffset

namespace Cursors

theorem init : Cursors Session.init := by
  refine ⟨rfl, rfl, le_refl _, ?_, ?_⟩
  · intro k m hm
    cases hm
  · intro c hc
    cases hc

theorem addOffset (h : Cursors s) {o : Int} (hstep : step s (.addOffset o) = some s') :
    Cursors s' := by
  have hadd : s.door.addOffset o =
      { s.door with offsets := insert o s.door.offsets, lastOffset := o } := by
    simp [SlidingDoor.addOffset, h.commitPerMessage]
  simp only [step, hadd, Option.some.injEq] at hstep
  subst hstep
  exact ⟨h.commitPerMessage, by simp [h.pending], h.consumed, h.removed, h.commits⟩

/-- What is looked up for the commit depends on the offsets that remain. -/
theorem consumedOffset_finish (h : Cursors s) (removed : SortedList Int MessageOffset) :
    (s.door.finish m.offset removed).consumedOffset =
      consumedOf (s.ledger.pending.erase m.offset) s.door.lastOffset := by
  rw [← h.pending]

/-- A call of `RemoveOffset` on an offset that is not pending changes nothing. -/
theorem removeOffset_absent (h : Cursors s) (hm : m.offset ∉ s.ledger.pending)
    (hstep : step s (.removeOffset m) = some s') : s' = s := by
  obtain ⟨committed, hdoor, hledger⟩ := step_removeOffset hstep
  rcases removeOffset_cases h.commitPerMessage hdoor with ⟨-, hcommit⟩ | ⟨removed, hmem, -⟩
  · have hnone : s.door.commitConsumed = (s.door, none) := by
      simp [commitConsumed, not_lt.2 h.consumed]
    obtain ⟨hsame, rfl⟩ := Prod.mk.inj (hnone.symm.trans hcommit)
    cases s
    cases s'
    simp_all
  · rw [h.pending] at hmem
    exact absurd hmem hm

theorem removeOffset_pending (h : Cursors s) (hm : m.offset ∈ s.ledger.pending)
    (hstep : step s (.removeOffset m) = some s') :
    ∃ removed, s.door.removedMessageOffsets.add m.offset m = some removed ∧
      s'.door = (s.door.finish m.offset removed).commitConsumed.1 ∧
      s'.ledger =
        { s.ledger with
          pending := s.ledger.pending.erase m.offset
          removed := insert m.offset s.ledger.removed
          commits :=
            s.ledger.commits ++ (s.door.finish m.offset removed).commitConsumed.2.toList } := by
  obtain ⟨committed, hdoor, hledger⟩ := step_removeOffset hstep
  rcases removeOffset_cases h.commitPerMessage hdoor with ⟨hmem, -⟩ | ⟨removed, -, hadd, hcommit⟩
  · rw [h.pending] at hmem
    exact absurd hm hmem
  · refine ⟨removed, hadd, by rw [hcommit], ?_⟩
    rw [hcommit, hledger, if_pos hm]

/-- The finished messages of the door after a call of `RemoveOffset`, before the commit. -/
theorem mem_finish (h : Cursors s) {removed : SortedList Int MessageOffset}
    (hadd : s.door.removedMessageOffsets.add m.offset m = some removed) {k : Int}
    {c : MessageOffset} (hc : (k, c) ∈ removed.entries) :
    c.offset = k ∧ k ∈ insert m.offset s.ledger.removed := by
  rcases (SortedList.mem_of_add hadd).1 hc with heq | hold
  · cases heq
    exact ⟨rfl, Finset.mem_insert_self _ _⟩
  · exact ⟨(h.removed k c hold).1, Finset.mem_insert_of_mem (h.removed k c hold).2⟩

theorem removeOffset (h : Cursors s) (hstep : step s (.removeOffset m) = some s') :
    Cursors s' := by
  by_cases hm : m.offset ∈ s.ledger.pending
  · obtain ⟨removed, hadd, hdoor, hledger⟩ := h.removeOffset_pending hm hstep
    refine ⟨?_, ?_, ?_, ?_, ?_⟩
    · simp [hdoor, h.commitPerMessage]
    · simp [hdoor, hledger, h.pending]
    · simp [hdoor]
    · intro k c hc
      rw [hdoor, mem_commitConsumed] at hc
      rw [hledger]
      exact h.mem_finish hadd hc.1
    · intro c hc
      rw [hledger, List.mem_append] at hc
      rw [hdoor, commitConsumed_lastCommittedOffset]
      rcases hc with hold | hnew
      · exact le_trans (h.commits c hold) (le_max_left _ _)
      · obtain ⟨-, hentry⟩ := commitConsumed_some _ (Option.mem_toList.1 hnew)
        rw [(h.mem_finish hadd hentry).1]
        exact le_max_right _ _
  · rw [h.removeOffset_absent hm hstep]
    exact h

theorem of_run (hrun : run step Session.init calls = some s) : Cursors s := by
  refine run_invariant Cursors ?_ init hrun
  intro s call s' h hstep
  cases call with
  | addOffset o => exact h.addOffset hstep
  | removeOffset m => exact h.removeOffset hstep

end Cursors

/-- Everything up to the new value of `ConsumedOffset` lies below the remaining offsets. -/
theorem consumedOf_lt {offsets : Finset Int} {lastOffset o : Int} (ho : o ∈ offsets) :
    consumedOf offsets lastOffset < o := by
  have hne : offsets.Nonempty := ⟨o, ho⟩
  have hmin := offsets.min'_le o ho
  rw [consumedOf, dif_pos hne]
  omega

/-- An offset below the remaining ones is looked up, or lies below the one that is. -/
theorem le_consumedOf {offsets : Finset Int} {lastOffset o : Int} (ho : ∀ p ∈ offsets, o < p)
    (hlast : o ≤ lastOffset) : o ≤ consumedOf offsets lastOffset := by
  unfold consumedOf
  split
  · next hne =>
    have hlt := ho _ (offsets.min'_mem hne)
    omega
  · exact hlast

/-- In every run of calls that return, an offset that is passed to `CommitOffset` is smaller than
every offset that is pending then, was itself removed, and is greater than every offset that was
committed before. -/
theorem commit_safe {call : Call} {c : MessageOffset}
    (hrun : run step Session.init calls = some s) (hstep : step s call = some s')
    (hc : s'.ledger.commits = s.ledger.commits ++ [c]) :
    (∀ o ∈ s'.ledger.pending, c.offset < o) ∧ c.offset ∈ s'.ledger.removed ∧
      ∀ c' ∈ s.ledger.commits, c'.offset < c.offset := by
  have h := Cursors.of_run hrun
  cases call with
  | addOffset o =>
    simp only [step, Option.some.injEq] at hstep
    subst hstep
    simp at hc
  | removeOffset m =>
    by_cases hm : m.offset ∈ s.ledger.pending
    · obtain ⟨removed, hadd, -, hledger⟩ := h.removeOffset_pending hm hstep
      rw [hledger, List.append_cancel_left_eq] at hc
      obtain ⟨hlt, hentry⟩ := commitConsumed_some _ (Option.toList_eq_singleton_iff.1 hc)
      obtain ⟨hoffset, hremoved⟩ := h.mem_finish hadd hentry
      rw [hledger, hoffset]
      refine ⟨?_, hremoved, ?_⟩
      · intro o ho
        exact consumedOf_lt (by rwa [h.pending])
      · intro c' hc'
        exact lt_of_le_of_lt (h.commits c' hc') hlt
    · rw [h.removeOffset_absent hm hstep] at hc
      simp at hc

/-- Two offsets, the second of which is finished first; the second call commits both. -/
theorem commit_safe_of_two_offsets :
    ∃ s s', run step Session.init
        [.addOffset 3, .addOffset 4, .removeOffset ⟨"b", "t", 0, 4⟩, .addOffset 5] = some s ∧
      step s (.removeOffset ⟨"b", "t", 0, 3⟩) = some s' ∧
      s'.ledger.commits = s.ledger.commits ++ [⟨"b", "t", 0, 4⟩] ∧
      (∀ o ∈ s'.ledger.pending, 4 < o) := by
  refine ⟨_, _, rfl, rfl, by decide, ?_⟩
  have hrun : run step Session.init
      [.addOffset 3, .addOffset 4, .removeOffset ⟨"b", "t", 0, 4⟩, .addOffset 5] = some _ := rfl
  exact (commit_safe (c := ⟨"b", "t", 0, 4⟩) hrun
    (show step _ (.removeOffset ⟨"b", "t", 0, 3⟩) = some _ from rfl) (by decide)).1

/-! ## Progress -/

/-- The removed offsets that are smaller than all pending ones. -/
def Ledger.settled (l : Ledger) : Finset Int := l.removed.filter fun o => ∀ p ∈ l.pending, o < p

/-- The greatest offset committed so far is the greatest removed one that is smaller than all
pending ones; nothing is committed if there is none. -/
def CaughtUp (l : Ledger) : Prop :=
  (l.commits.map MessageOffset.offset).toFinset.max = l.settled.max

/-- Offsets are added in increasing order, and only pending ones are removed. -/
def InOrder (s : Session) : Call → Prop
  | .addOffset o => ∀ a ∈ s.ledger.added, a < o
  | .removeOffset m => m.offset ∈ s.ledger.pending

instance (s : Session) : DecidablePred (InOrder s)
  | .addOffset o => inferInstanceAs (Decidable (∀ a ∈ s.ledger.added, a < o))
  | .removeOffset m => inferInstanceAs (Decidable (m.offset ∈ s.ledger.pending))

/-- There is no gap below the least one of these offsets: the offset directly below it was added
and is not negative. If there is none, it is enough that an offset that is not negative was added. -/
def Ledger.NoGapBelow (l : Ledger) (offsets : Finset Int) : Prop :=
  (∀ p ∈ offsets, (∀ q ∈ offsets, p ≤ q) → p - 1 ∈ l.added ∧ 0 ≤ p - 1) ∧
    (offsets = ∅ → ∃ a ∈ l.added, 0 ≤ a)

instance (l : Ledger) : DecidablePred l.NoGapBelow :=
  fun _ => inferInstanceAs (Decidable (_ ∧ _))

/-- A call that removes the least pending offset leaves no gap below those that remain. -/
def LeavesNoGap (s : Session) : Call → Prop
  | .addOffset _ => True
  | .removeOffset m =>
    (∀ p ∈ s.ledger.pending, m.offset ≤ p) →
      s.ledger.NoGapBelow (s.ledger.pending.erase m.offset)

instance (s : Session) : DecidablePred (LeavesNoGap s)
  | .addOffset _ => isTrue trivial
  | .removeOffset m =>
    inferInstanceAs (Decidable ((∀ p ∈ s.ledger.pending, m.offset ≤ p) →
      s.ledger.NoGapBelow (s.ledger.pending.erase m.offset)))

/-- If the call is a `RemoveOffset`, the door is caught up after it. -/
def CatchesUp (s : Session) : Call → Prop
  | .addOffset _ => True
  | .removeOffset m => ∀ s', step s (.removeOffset m) = some s' → CaughtUp s'.ledger

/-- What holds of a door whose offsets are added in increasing order. -/
structure Increasing (s : Session) : Prop extends Cursors s where
  added : s.ledger.added = s.ledger.pending ∪ s.ledger.removed
  disjoint : ∀ o ∈ s.ledger.pending, o ∉ s.ledger.removed
  le_lastOffset : ∀ a ∈ s.ledger.added, a ≤ s.door.lastOffset
  lastOffset_mem : ∀ a ∈ s.ledger.added, s.door.lastOffset ∈ s.ledger.added
  floor : -1 ≤ s.door.lastCommittedOffset
  below : s.door.lastCommittedOffset = -1 ∨
    ∃ a ∈ s.ledger.added, s.door.lastCommittedOffset ≤ a
  lt_pending : ∀ p ∈ s.ledger.pending,
    s.door.lastCommittedOffset < p ∨ s.door.lastCommittedOffset = -1
  kept : ∀ o ∈ s.ledger.removed, s.door.lastCommittedOffset < o →
    s.door.removedMessageOffsets.ContainsKey o
  commits_nonneg : ∀ c ∈ s.ledger.commits, 0 ≤ c.offset

namespace Increasing

theorem init : Increasing Session.init where
  toCursors := .init
  added := rfl
  disjoint := by simp [Session.init]
  le_lastOffset := by simp [Session.init]
  lastOffset_mem := by simp [Session.init]
  floor := le_refl _
  below := .inl rfl
  lt_pending := by simp [Session.init]
  kept := by simp [Session.init]
  commits_nonneg := by simp [Session.init]

theorem addOffset (h : Increasing s) {o : Int} (ho : ∀ a ∈ s.ledger.added, a < o)
    (hstep : step s (.addOffset o) = some s') : Increasing s' := by
  have hcursors := h.toCursors.addOffset hstep
  have hadd : s.door.addOffset o =
      { s.door with offsets := insert o s.door.offsets, lastOffset := o } := by
    simp [SlidingDoor.addOffset, h.commitPerMessage]
  have hcommitted : s.door.lastCommittedOffset < o ∨ s.door.lastCommittedOffset = -1 := by
    rcases h.below with hnone | ⟨a, ha, hle⟩
    · exact .inr hnone
    · exact .inl (lt_of_le_of_lt hle (ho a ha))
  have hnew : o ∉ s.ledger.removed := by
    intro hmem
    exact lt_irrefl o (ho o (by rw [h.added]; exact Finset.mem_union_right _ hmem))
  simp only [step, hadd, Option.some.injEq] at hstep
  subst hstep
  refine ⟨hcursors, ?_, ?_, ?_, ?_, h.floor, ?_, ?_, h.kept, h.commits_nonneg⟩
  · simp [h.added]
  · intro p hp
    rcases Finset.mem_insert.1 hp with rfl | hp
    · exact hnew
    · exact h.disjoint p hp
  · intro a ha
    rcases Finset.mem_insert.1 ha with rfl | ha
    · exact le_refl _
    · exact le_of_lt (ho a ha)
  · intro a _
    exact Finset.mem_insert_self _ _
  · rcases h.below with hnone | ⟨a, ha, hle⟩
    · exact .inl hnone
    · exact .inr ⟨a, Finset.mem_insert_of_mem ha, hle⟩
  · intro p hp
    rcases Finset.mem_insert.1 hp with rfl | hp
    · exact hcommitted
    · exact h.lt_pending p hp

/-- The offset that is looked up for the commit is an added one, or lies below one. -/
theorem consumedOf_le (h : Increasing s) {o : Int} (ho : o ∈ s.ledger.pending) :
    ∃ a ∈ s.ledger.added,
      consumedOf (s.ledger.pending.erase o) s.door.lastOffset ≤ a := by
  have hadded : ∀ p ∈ s.ledger.pending, p ∈ s.ledger.added := by
    intro p hp
    rw [h.added]
    exact Finset.mem_union_left _ hp
  by_cases hne : (s.ledger.pending.erase o).Nonempty
  · obtain ⟨p, hp⟩ := hne
    exact ⟨p, hadded p (Finset.mem_of_mem_erase hp), le_of_lt (consumedOf_lt hp)⟩
  · refine ⟨s.door.lastOffset, h.lastOffset_mem o (hadded o ho), ?_⟩
    rw [consumedOf, dif_neg hne]

theorem removeOffset (h : Increasing s) (hm : m.offset ∈ s.ledger.pending)
    (hstep : step s (.removeOffset m) = some s') : Increasing s' := by
  have hcursors := h.toCursors.removeOffset hstep
  obtain ⟨removed, hadd, hdoor, hledger⟩ := h.toCursors.removeOffset_pending hm hstep
  have hconsumed := h.toCursors.consumedOffset_finish (m := m) removed
  have hcommitted : (s.door.finish m.offset removed).lastCommittedOffset =
      s.door.lastCommittedOffset := rfl
  have hfloor := h.floor
  refine ⟨hcursors, ?_, ?_, ?_, ?_, ?_, ?_, ?_, ?_, ?_⟩
  · rw [hledger]
    ext a
    have hadded : a ∈ s.ledger.added ↔ a ∈ s.ledger.pending ∨ a ∈ s.ledger.removed := by
      rw [h.added, Finset.mem_union]
    by_cases ham : a = m.offset
    · subst ham
      simp [hadded, hm]
    · simp [hadded, ham]
  · rw [hledger]
    intro p hp
    obtain ⟨hne, hp⟩ := Finset.mem_erase.1 hp
    simp [hne, h.disjoint p hp]
  · rw [hledger, hdoor, commitConsumed_lastOffset]
    exact h.le_lastOffset
  · rw [hledger, hdoor, commitConsumed_lastOffset]
    exact h.lastOffset_mem
  · rw [hdoor, commitConsumed_lastCommittedOffset]
    exact le_trans hfloor (le_max_left _ _)
  · rw [hledger, hdoor, commitConsumed_lastCommittedOffset, hcommitted, hconsumed]
    obtain ⟨a, ha, hle⟩ := h.consumedOf_le hm
    rcases h.below with hnone | ⟨b, hb, hbelow⟩
    · by_cases hle' : consumedOf (s.ledger.pending.erase m.offset) s.door.lastOffset ≤ -1
      · exact .inl (by rw [hnone]; exact max_eq_left hle')
      · exact .inr ⟨a, ha, max_le (by omega) hle⟩
    · rcases le_total a b with hab | hab
      · exact .inr ⟨b, hb, max_le hbelow (le_trans hle hab)⟩
      · exact .inr ⟨a, ha, max_le (le_trans hbelow hab) hle⟩
  · rw [hledger, hdoor, commitConsumed_lastCommittedOffset, hcommitted, hconsumed]
    intro p hp
    have hlt : consumedOf (s.ledger.pending.erase m.offset) s.door.lastOffset < p :=
      consumedOf_lt hp
    have hold := h.lt_pending p (Finset.mem_of_mem_erase hp)
    omega
  · rw [hledger, hdoor, commitConsumed_lastCommittedOffset]
    intro o ho hlt
    have hcontains : removed.ContainsKey o := by
      rcases Finset.mem_insert.1 ho with rfl | ho
      · exact ⟨m, (SortedList.mem_of_add hadd).2 (.inl rfl)⟩
      · obtain ⟨v, hv⟩ := h.kept o ho (lt_of_le_of_lt (le_max_left _ _) hlt)
        exact ⟨v, (SortedList.mem_of_add hadd).2 (.inr hv)⟩
    obtain ⟨v, hv⟩ := hcontains
    refine ⟨v, (mem_commitConsumed _).2 ⟨hv, ?_⟩⟩
    intro _ _
    exact lt_of_le_of_lt (le_max_right _ _) hlt
  · rw [hledger]
    intro c hc
    rcases List.mem_append.1 hc with hold | hnew
    · exact h.commits_nonneg c hold
    · obtain ⟨hlt, hentry⟩ := commitConsumed_some _ (Option.mem_toList.1 hnew)
      rw [(h.mem_finish hadd hentry).1]
      rw [hcommitted] at hlt
      omega

/-- `RemoveOffset` does not throw on a pending offset: it has not been removed before. -/
theorem removeOffset_returns (h : Increasing s) (hm : m.offset ∈ s.ledger.pending) :
    ∃ s', step s (.removeOffset m) = some s' := by
  have habsent : ¬s.door.removedMessageOffsets.ContainsKey m.offset := by
    rintro ⟨v, hv⟩
    exact h.disjoint m.offset hm (h.removed m.offset v hv).2
  have hadd : ∃ removed, s.door.removedMessageOffsets.add m.offset m = some removed := by
    rw [← Option.ne_none_iff_exists']
    exact fun hnone => habsent (SortedList.add_eq_none.1 hnone)
  obtain ⟨removed, hadd⟩ := hadd
  simp [step, SlidingDoor.removeOffset, h.commitPerMessage, h.pending, hm, hadd]

theorem step (h : Increasing s) {call : Call} (hcall : InOrder s call)
    (hstep : MessageQueue.step s call = some s') : Increasing s' := by
  cases call with
  | addOffset o => exact h.addOffset hcall hstep
  | removeOffset m => exact h.removeOffset hcall hstep

/-- In a run whose offsets are added in increasing order every call returns. -/
theorem enabled (h : Increasing s) {call : Call} (hcall : InOrder s call) :
    ∃ s', MessageQueue.step s call = some s' := by
  cases call with
  | addOffset o => exact ⟨_, rfl⟩
  | removeOffset m => exact h.removeOffset_returns hcall

end Increasing

/-! ### Caught up -/

/-- Below the maximum of a finite set lies what lies below one of its elements. -/
theorem coe_le_max_iff {t : Finset Int} {a : Int} : (a : WithBot Int) ≤ t.max ↔ ∃ b ∈ t, a ≤ b := by
  constructor
  · intro h
    have hne : t.Nonempty := by
      by_contra hempty
      rw [Finset.not_nonempty_iff_eq_empty.1 hempty, Finset.max_empty] at h
      exact absurd h (WithBot.not_coe_le_bot a)
    obtain ⟨b, hb⟩ := Finset.max_of_nonempty hne
    rw [hb, WithBot.coe_le_coe] at h
    exact ⟨b, Finset.mem_of_max hb, h⟩
  · rintro ⟨b, hb, hab⟩
    exact le_trans (WithBot.coe_le_coe.2 hab) (Finset.le_max hb)

/-- The door is caught up when each commit is covered by a settled offset and conversely. -/
theorem caughtUp_iff {l : Ledger} :
    CaughtUp l ↔ (∀ c ∈ l.commits, ∃ o ∈ l.settled, c.offset ≤ o) ∧
      ∀ o ∈ l.settled, ∃ c ∈ l.commits, o ≤ c.offset := by
  unfold CaughtUp
  rw [le_antisymm_iff]
  refine and_congr ?_ ?_
  · constructor
    · intro h c hc
      refine coe_le_max_iff.1 (le_trans (Finset.le_max ?_) h)
      exact List.mem_toFinset.2 (List.mem_map_of_mem hc)
    · intro h
      refine Finset.max_le fun a ha => coe_le_max_iff.2 ?_
      obtain ⟨c, hc, rfl⟩ := List.mem_map.1 (List.mem_toFinset.1 ha)
      exact h c hc
  · constructor
    · intro h o ho
      obtain ⟨a, ha, hle⟩ := coe_le_max_iff.1 (le_trans (Finset.le_max ho) h)
      obtain ⟨c, hc, rfl⟩ := List.mem_map.1 (List.mem_toFinset.1 ha)
      exact ⟨c, hc, hle⟩
    · intro h
      refine Finset.max_le fun o ho => coe_le_max_iff.2 ?_
      obtain ⟨c, hc, hle⟩ := h o ho
      exact ⟨c.offset, List.mem_toFinset.2 (List.mem_map_of_mem hc), hle⟩

theorem mem_settled {l : Ledger} {o : Int} :
    o ∈ l.settled ↔ o ∈ l.removed ∧ ∀ p ∈ l.pending, o < p := by
  simp [Ledger.settled]

theorem caughtUp_init : CaughtUp Session.init.ledger := rfl

/-- A new offset is greater than the removed ones and settles nothing. -/
theorem caughtUp_addOffset (h : Increasing s) {o : Int} (ho : ∀ a ∈ s.ledger.added, a < o)
    (hcaught : CaughtUp s.ledger) (hstep : step s (.addOffset o) = some s') :
    CaughtUp s'.ledger := by
  simp only [step, Option.some.injEq] at hstep
  subst hstep
  have hsettled : Ledger.settled { s.ledger with
      added := insert o s.ledger.added
      pending := insert o s.ledger.pending } = s.ledger.settled := by
    ext a
    simp only [mem_settled, Finset.mem_insert, forall_eq_or_imp]
    constructor
    · rintro ⟨ha, -, hlt⟩
      exact ⟨ha, hlt⟩
    · rintro ⟨ha, hlt⟩
      exact ⟨ha, ho a (by rw [h.added]; exact Finset.mem_union_right _ ha), hlt⟩
  unfold CaughtUp at hcaught ⊢
  rw [hsettled]
  exact hcaught

theorem noGapBelow_iff (h : Increasing s) {offsets : Finset Int}
    (hlast : s.door.lastOffset ∈ s.ledger.added) :
    s.ledger.NoGapBelow offsets ↔
      consumedOf offsets s.door.lastOffset ∈ s.ledger.added ∧
        0 ≤ consumedOf offsets s.door.lastOffset := by
  unfold Ledger.NoGapBelow consumedOf
  split
  · next hne =>
    have hmin := offsets.min'_mem hne
    have hle : ∀ q ∈ offsets, offsets.min' hne ≤ q := fun q hq => offsets.min'_le q hq
    constructor
    · intro hgap
      exact hgap.1 _ hmin hle
    · intro hgap
      refine ⟨?_, fun hempty => absurd hempty (Finset.nonempty_iff_ne_empty.1 hne)⟩
      intro p hp hleast
      rw [le_antisymm (hleast _ hmin) (hle p hp)]
      exact hgap
  · next hempty =>
    rw [Finset.not_nonempty_iff_eq_empty] at hempty
    subst hempty
    constructor
    · intro hgap
      obtain ⟨a, ha, hnonneg⟩ := hgap.2 rfl
      exact ⟨hlast, le_trans hnonneg (h.le_lastOffset a ha)⟩
    · intro hgap
      exact ⟨by simp, fun _ => ⟨_, hgap⟩⟩

/-- Removing an offset above the least pending one settles nothing, and nothing is committed. -/
theorem caughtUp_removeOffset_of_lt (h : Increasing s) (hm : m.offset ∈ s.ledger.pending)
    {p : Int} (hp : p ∈ s.ledger.pending) (hlt : p < m.offset) (hcaught : CaughtUp s.ledger)
    (hstep : step s (.removeOffset m) = some s') : CaughtUp s'.ledger := by
  obtain ⟨removed, hadd, -, hledger⟩ := h.toCursors.removeOffset_pending hm hstep
  have hp' : p ∈ s.ledger.pending.erase m.offset := Finset.mem_erase.2 ⟨ne_of_lt hlt, hp⟩
  have hconsumed : ∀ q ∈ s.ledger.pending.erase m.offset,
      (s.door.finish m.offset removed).consumedOffset < q := by
    intro q hq
    exact consumedOf_lt (by rwa [h.pending])
  have hsettled : s'.ledger.settled = s.ledger.settled := by
    ext o
    rw [mem_settled, mem_settled, hledger]
    constructor
    · rintro ⟨ho, hbelow⟩
      have hop : o < p := hbelow p hp'
      refine ⟨Finset.mem_of_mem_insert_of_ne ho (by omega), ?_⟩
      intro q hq
      by_cases hqm : q = m.offset
      · omega
      · exact hbelow q (Finset.mem_erase.2 ⟨hqm, hq⟩)
    · rintro ⟨ho, hbelow⟩
      exact ⟨Finset.mem_insert_of_mem ho, fun q hq => hbelow q (Finset.mem_of_mem_erase hq)⟩
  have hnone : (s.door.finish m.offset removed).commitConsumed.2 = none := by
    rw [Option.eq_none_iff_forall_not_mem]
    intro c hc
    -- what would be committed was settled before, and so has been committed
    obtain ⟨hnew, hentry⟩ := commitConsumed_some _ hc
    obtain ⟨-, hremoved⟩ := h.mem_finish hadd hentry
    have hlow := hconsumed p hp'
    have hmem : (s.door.finish m.offset removed).consumedOffset ∈ s.ledger.settled := by
      refine mem_settled.2 ⟨Finset.mem_of_mem_insert_of_ne hremoved (by omega), ?_⟩
      intro q hq
      by_cases hqm : q = m.offset
      · omega
      · exact hconsumed q (Finset.mem_erase.2 ⟨hqm, hq⟩)
    obtain ⟨c', hc', hle⟩ := (caughtUp_iff.1 hcaught).2 _ hmem
    exact absurd (lt_of_lt_of_le hnew (le_trans hle (h.commits c' hc'))) (lt_irrefl _)
  unfold CaughtUp at hcaught ⊢
  rw [hsettled, hledger, hnone, Option.toList_none, List.append_nil]
  exact hcaught

/-- When the least pending offset is removed, the offset that is looked up is committed exactly
when it was added and is not negative. -/
theorem commits_iff_of_least (h : Increasing s) (hm : m.offset ∈ s.ledger.pending)
    (hleast : ∀ p ∈ s.ledger.pending.erase m.offset, m.offset < p)
    {removed : SortedList Int MessageOffset}
    (hadd : s.door.removedMessageOffsets.add m.offset m = some removed) :
    (∃ c, (s.door.finish m.offset removed).commitConsumed.2 = some c) ↔
      consumedOf (s.ledger.pending.erase m.offset) s.door.lastOffset ∈ s.ledger.added ∧
        0 ≤ consumedOf (s.ledger.pending.erase m.offset) s.door.lastOffset := by
  have hmadded : m.offset ∈ s.ledger.added := by
    rw [h.added]
    exact Finset.mem_union_left _ hm
  have hconsumed := h.toCursors.consumedOffset_finish (m := m) removed
  have hcommitted : (s.door.finish m.offset removed).lastCommittedOffset =
      s.door.lastCommittedOffset := rfl
  have hfloor := h.floor
  constructor
  · rintro ⟨c, hc⟩
    obtain ⟨hlt, hentry⟩ := commitConsumed_some _ hc
    obtain ⟨-, hremoved⟩ := h.mem_finish hadd hentry
    rw [hconsumed] at hlt hremoved
    refine ⟨?_, by omega⟩
    rcases Finset.mem_insert.1 hremoved with heq | hold
    · rw [heq]
      exact hmadded
    · rw [h.added]
      exact Finset.mem_union_right _ hold
  · rintro ⟨hadded, hnonneg⟩
    have hle := le_consumedOf hleast (h.le_lastOffset _ hmadded)
    have hnew : s.door.lastCommittedOffset <
        consumedOf (s.ledger.pending.erase m.offset) s.door.lastOffset := by
      have hold := h.lt_pending _ hm
      omega
    have hcontains : removed.ContainsKey
        (consumedOf (s.ledger.pending.erase m.offset) s.door.lastOffset) := by
      -- an added offset below the remaining ones has been removed, now or before
      rw [h.added] at hadded
      rcases Finset.mem_union.1 hadded with hpending | hremoved
      · have heq : consumedOf (s.ledger.pending.erase m.offset) s.door.lastOffset = m.offset := by
          by_contra hne
          exact lt_irrefl _ (consumedOf_lt (Finset.mem_erase.2 ⟨hne, hpending⟩))
        rw [heq]
        exact ⟨m, (SortedList.mem_of_add hadd).2 (.inl rfl)⟩
      · obtain ⟨v, hv⟩ := h.kept _ hremoved hnew
        exact ⟨v, (SortedList.mem_of_add hadd).2 (.inr hv)⟩
    rw [← Option.ne_none_iff_exists', ne_eq, commitConsumed_eq_none, hconsumed, hcommitted]
    rintro (hstale | habsent)
    · exact absurd hnew (not_lt.2 hstale)
    · exact habsent hcontains

/-- When the least pending offset is removed, the door is caught up exactly when it commits. -/
theorem caughtUp_iff_commits (h : Increasing s) (hm : m.offset ∈ s.ledger.pending)
    (hleast : ∀ p ∈ s.ledger.pending.erase m.offset, m.offset < p)
    {removed : SortedList Int MessageOffset}
    (hadd : s.door.removedMessageOffsets.add m.offset m = some removed)
    (hledger : s'.ledger =
      { s.ledger with
        pending := s.ledger.pending.erase m.offset
        removed := insert m.offset s.ledger.removed
        commits :=
          s.ledger.commits ++ (s.door.finish m.offset removed).commitConsumed.2.toList }) :
    CaughtUp s'.ledger ↔ ∃ c, (s.door.finish m.offset removed).commitConsumed.2 = some c := by
  have hsettled : m.offset ∈ s'.ledger.settled := by
    rw [mem_settled, hledger]
    exact ⟨Finset.mem_insert_self _ _, hleast⟩
  have hcommits : ∀ c ∈ s.ledger.commits, c.offset < m.offset := by
    intro c hc
    have hle := h.commits c hc
    have hnonneg := h.commits_nonneg c hc
    have hlt := h.lt_pending _ hm
    omega
  rw [caughtUp_iff]
  constructor
  · rintro ⟨-, hcovered⟩
    obtain ⟨c, hc, hle⟩ := hcovered _ hsettled
    rw [hledger, List.mem_append] at hc
    rcases hc with hold | hnew
    · exact absurd (hcommits c hold) (not_lt.2 hle)
    · exact ⟨c, Option.mem_toList.1 hnew⟩
  · rintro ⟨c, hc⟩
    obtain ⟨-, hentry⟩ := commitConsumed_some _ hc
    obtain ⟨hoffset, hremoved⟩ := h.mem_finish hadd hentry
    have hbelow : ∀ p ∈ s.ledger.pending.erase m.offset, c.offset < p := by
      intro p hp
      rw [hoffset]
      exact consumedOf_lt (by rwa [h.pending])
    refine ⟨?_, ?_⟩
    · intro c' hc'
      rw [hledger, hc, List.mem_append] at hc'
      rcases hc' with hold | hnew
      · exact ⟨m.offset, hsettled, le_of_lt (hcommits c' hold)⟩
      · cases Option.mem_toList.1 hnew
        refine ⟨c.offset, ?_, le_refl _⟩
        rw [mem_settled, hledger, hoffset]
        rw [hoffset] at hbelow
        exact ⟨hremoved, hbelow⟩
    · intro o ho
      refine ⟨c, by rw [hledger, hc]; simp, ?_⟩
      rw [mem_settled, hledger] at ho
      have hadded : o ∈ s.ledger.added := by
        rw [h.added]
        rcases Finset.mem_insert.1 ho.1 with rfl | hold
        · exact Finset.mem_union_left _ hm
        · exact Finset.mem_union_right _ hold
      rw [hoffset]
      exact le_consumedOf (by rw [h.pending]; exact ho.2) (h.le_lastOffset o hadded)

/-- A call of `RemoveOffset` keeps the door caught up exactly when it leaves no gap. -/
theorem caughtUp_removeOffset (h : Increasing s) (hm : m.offset ∈ s.ledger.pending)
    (hcaught : CaughtUp s.ledger) (hstep : step s (.removeOffset m) = some s') :
    CaughtUp s'.ledger ↔ LeavesNoGap s (.removeOffset m) := by
  by_cases hleast : ∀ p ∈ s.ledger.pending, m.offset ≤ p
  · obtain ⟨removed, hadd, -, hledger⟩ := h.toCursors.removeOffset_pending hm hstep
    have hmadded : m.offset ∈ s.ledger.added := by
      rw [h.added]
      exact Finset.mem_union_left _ hm
    have hlt : ∀ p ∈ s.ledger.pending.erase m.offset, m.offset < p := by
      intro p hp
      obtain ⟨hne, hp⟩ := Finset.mem_erase.1 hp
      exact lt_of_le_of_ne (hleast p hp) hne.symm
    rw [caughtUp_iff_commits h hm hlt hadd hledger, commits_iff_of_least h hm hlt hadd,
      ← noGapBelow_iff h (h.lastOffset_mem _ hmadded)]
    exact ⟨fun hgap _ => hgap, fun hgap => hgap hleast⟩
  · refine iff_of_true ?_ (fun hall => absurd hall hleast)
    push Not at hleast
    obtain ⟨p, hp, hlt⟩ := hleast
    exact caughtUp_removeOffset_of_lt h hm hp hlt hcaught hstep

/-- As long as the door is caught up, a call keeps it so exactly when it leaves no gap. -/
theorem catchesUp_iff (h : Increasing s) (hcaught : CaughtUp s.ledger) {call : Call}
    (hcall : InOrder s call) : CatchesUp s call ↔ LeavesNoGap s call := by
  cases call with
  | addOffset o => exact Iff.rfl
  | removeOffset m =>
    obtain ⟨s', hstep⟩ := h.removeOffset_returns hcall
    rw [← caughtUp_removeOffset h hcall hcaught hstep]
    constructor
    · intro hall
      exact hall s' hstep
    · intro hs' t ht
      cases hstep.symm.trans ht
      exact hs'

/-- For offsets that are added in increasing order and removed while they are pending, no call
throws, and the door is caught up after every `RemoveOffset` exactly when no `RemoveOffset` of the
least pending offset leaves a gap below the remaining ones. The integers stand for offsets above
`long.MinValue`, below which `Offsets.First() - 1` would wrap around. -/
theorem catches_up_iff_no_gap (hcalls : Along step InOrder Session.init calls) :
    (∃ s, run step Session.init calls = some s) ∧
      (Along step CatchesUp Session.init calls ↔ Along step LeavesNoGap Session.init calls) := by
  refine ⟨?_, ?_⟩
  · exact Along.exists_run Increasing (fun _ _ _ h hcall hstep => h.step hcall hstep)
      (fun _ _ h hcall => h.enabled hcall) .init hcalls
  · refine Along.congr (fun s => Increasing s ∧ CaughtUp s.ledger) ?_ ?_ ⟨.init, caughtUp_init⟩
      hcalls
    · rintro s call s' ⟨h, hcaught⟩ hcall hup hstep
      refine ⟨h.step hcall hstep, ?_⟩
      cases call with
      | addOffset o => exact caughtUp_addOffset h hcall hcaught hstep
      | removeOffset m => exact hup s' hstep
    · rintro s call ⟨h, hcaught⟩ hcall
      exact catchesUp_iff h hcaught hcall

/-- Three contiguous offsets, finished out of order. -/
theorem catches_up_of_contiguous :
    Along step CatchesUp Session.init
      [.addOffset 7, .addOffset 8, .addOffset 9, .removeOffset ⟨"b", "t", 0, 8⟩,
        .removeOffset ⟨"b", "t", 0, 7⟩, .removeOffset ⟨"b", "t", 0, 9⟩] :=
  (catches_up_iff_no_gap (by decide)).2.2 (by decide)

/-- Offset `1` is finished and all pending offsets are greater, but it is not committed, because
the offset below the pending `5` is looked up. -/
theorem not_caught_up_of_gap :
    Along step InOrder Session.init
      [.addOffset 1, .addOffset 5, .removeOffset ⟨"b", "t", 0, 1⟩] ∧
    ∃ s, run step Session.init [.addOffset 1, .addOffset 5, .removeOffset ⟨"b", "t", 0, 1⟩] =
      some s ∧ s.ledger.commits = [] ∧ 1 ∈ s.ledger.settled ∧ ¬CaughtUp s.ledger := by
  refine ⟨by decide, _, rfl, rfl, by decide, ?_⟩
  unfold CaughtUp
  decide

end IFramework.MessageQueue
