import IFramework.MessageQueue.Commit

/-!
# What the sliding door retains

`RemovedMessageOffsets` keeps a finished offset until an offset at or beyond it is committed. A
queue can deliver an offset again in the meantime, after a rebalance or an invisibility timeout;
when it is then finished a second time, `SortedList.Add` throws. `Tracked` records which finished
offsets are not covered by a later commit, and `removals_return_iff` says that a run throws exactly
when it finishes such an offset again.

When every offset is added once, in increasing order, this cannot happen, and the two collections
have a simple meaning (`retained_beyond_commit`).
-/

namespace IFramework.MessageQueue

open Machine SlidingDoor

variable {s s' : Session} {calls : List Call} {m : MessageOffset}

/-! ## One call -/

/-- A call of `RemoveOffset` on a pending offset adds it to the finished ones, and then drops those
up to the offset that it commits. -/
theorem Cursors.containsKey_removeOffset (h : Cursors s) (hm : m.offset ∈ s.ledger.pending)
    (hstep : step s (.removeOffset m) = some s') :
    ∃ committed : Option MessageOffset,
      s'.ledger.commits = s.ledger.commits ++ committed.toList ∧
      ∀ k, s'.door.removedMessageOffsets.ContainsKey k ↔
        (k = m.offset ∨ s.door.removedMessageOffsets.ContainsKey k) ∧
          ∀ c ∈ committed, c.offset < k := by
  obtain ⟨removed, hadd, hdoor, hledger⟩ := h.removeOffset_pending hm hstep
  refine ⟨(s.door.finish m.offset removed).commitConsumed.2, by rw [hledger], ?_⟩
  intro k
  have hinsert : removed.ContainsKey k ↔
      k = m.offset ∨ s.door.removedMessageOffsets.ContainsKey k := by
    constructor
    · rintro ⟨v, hv⟩
      rcases (SortedList.mem_of_add hadd).1 hv with heq | hold
      · exact .inl (congrArg Prod.fst heq)
      · exact .inr ⟨v, hold⟩
    · rintro (rfl | ⟨v, hv⟩)
      · exact ⟨m, (SortedList.mem_of_add hadd).2 (.inl rfl)⟩
      · exact ⟨v, (SortedList.mem_of_add hadd).2 (.inr hv)⟩
  -- a commit is made exactly under the guards of `mem_commitConsumed`
  have hcommitted : (∀ c ∈ (s.door.finish m.offset removed).commitConsumed.2, c.offset < k) ↔
      ((s.door.finish m.offset removed).lastCommittedOffset <
          (s.door.finish m.offset removed).consumedOffset →
        removed.ContainsKey (s.door.finish m.offset removed).consumedOffset →
        (s.door.finish m.offset removed).consumedOffset < k) := by
    cases hcommit : (s.door.finish m.offset removed).commitConsumed.2 with
    | none =>
      refine iff_of_true (by simp) ?_
      intro hlt hcontains
      rcases (commitConsumed_eq_none _).1 hcommit with hle | habsent
      · exact absurd hlt (not_lt.2 hle)
      · exact absurd hcontains habsent
    | some c =>
      obtain ⟨hlt, hentry⟩ := commitConsumed_some _ hcommit
      have hoffset := (h.mem_finish hadd hentry).1
      constructor
      · intro hall _ _
        rw [← hoffset]
        exact hall c rfl
      · rintro hall c' ⟨⟩
        rw [hoffset]
        exact hall hlt ⟨c, hentry⟩
  rw [hdoor, hcommitted, ← hinsert]
  constructor
  · rintro ⟨v, hv⟩
    obtain ⟨hmem, hguard⟩ := (mem_commitConsumed _).1 hv
    exact ⟨⟨v, hmem⟩, hguard⟩
  · rintro ⟨⟨v, hv⟩, hguard⟩
    exact ⟨v, (mem_commitConsumed _).2 ⟨hv, hguard⟩⟩

/-- `RemoveOffset` throws exactly when the offset is pending and finished at the same time. -/
theorem Cursors.removeOffset_throws_iff (h : Cursors s) :
    step s (.removeOffset m) = none ↔
      m.offset ∈ s.ledger.pending ∧ s.door.removedMessageOffsets.ContainsKey m.offset := by
  rw [← h.pending, ← SortedList.add_eq_none (v := m)]
  unfold step SlidingDoor.removeOffset
  simp only [h.commitPerMessage, Bool.false_eq_true, if_false]
  by_cases hm : m.offset ∈ s.door.offsets
  · cases hadd : s.door.removedMessageOffsets.add m.offset m with
    | none => simp [hm]
    | some removed => simp [hm]
  · simp [hm]

/-! ## Redelivery -/

/-- A door with its ledger, and the finished offsets that no later commit has covered. -/
structure Tracked where
  session : Session
  uncommitted : Finset Int

namespace Tracked

/-- A new door. -/
def init : Tracked := ⟨.init, ∅⟩

/-- The finished offsets that are not covered after a call of `RemoveOffset` that leads to `s'`. -/
def afterRemove (t : Tracked) (m : MessageOffset) (s' : Session) : Finset Int :=
  (if m.offset ∈ t.session.ledger.pending then insert m.offset t.uncommitted
    else t.uncommitted).filter fun o =>
      ∀ c ∈ s'.ledger.commits.drop t.session.ledger.commits.length, c.offset < o

/-- What a call that returns does; `none` for a call that throws. -/
def step (t : Tracked) : Call → Option Tracked
  | .addOffset offset =>
    (MessageQueue.step t.session (.addOffset offset)).map fun s' => ⟨s', t.uncommitted⟩
  | .removeOffset m =>
    (MessageQueue.step t.session (.removeOffset m)).map fun s' => ⟨s', t.afterRemove m s'⟩

/-- A call of `RemoveOffset` returns, and the offset is not pending then. -/
def Survives (t : Tracked) : Call → Prop
  | .addOffset _ => True
  | .removeOffset m =>
    ∃ t', t.step (.removeOffset m) = some t' ∧ m.offset ∉ t'.session.door.offsets

/-- A pending offset is not finished a second time before a commit has covered the first time. -/
def FinishedOnce (t : Tracked) : Call → Prop
  | .addOffset _ => True
  | .removeOffset m => m.offset ∈ t.session.ledger.pending → m.offset ∉ t.uncommitted

instance (t : Tracked) : DecidablePred t.FinishedOnce
  | .addOffset _ => isTrue trivial
  | .removeOffset _ => inferInstanceAs (Decidable (_ → _))

variable {t t' : Tracked}

/-- The finished offsets in the door are those that are not covered by a commit. -/
structure Retains (t : Tracked) : Prop extends Cursors t.session where
  retained : ∀ k, t.session.door.removedMessageOffsets.ContainsKey k ↔ k ∈ t.uncommitted

namespace Retains

theorem init : Retains Tracked.init where
  toCursors := .init
  retained := by simp [Tracked.init, Session.init, SlidingDoor.new, SortedList.ContainsKey,
    SortedList.empty]

theorem addOffset (h : Retains t) {o : Int} (hstep : t.step (.addOffset o) = some t') :
    Retains t' := by
  simp only [Tracked.step] at hstep
  obtain ⟨s', hs', rfl⟩ := Option.map_eq_some_iff.1 hstep
  refine ⟨h.toCursors.addOffset hs', ?_⟩
  have hdoor : s'.door.removedMessageOffsets = t.session.door.removedMessageOffsets := by
    simp only [MessageQueue.step, Option.some.injEq] at hs'
    subst hs'
    simp [SlidingDoor.addOffset, h.commitPerMessage]
  intro k
  rw [hdoor]
  exact h.retained k

theorem removeOffset (h : Retains t) (hstep : t.step (.removeOffset m) = some t') :
    Retains t' := by
  obtain ⟨s', hs', rfl⟩ := Option.map_eq_some_iff.1 hstep
  refine ⟨h.toCursors.removeOffset hs', ?_⟩
  intro k
  by_cases hm : m.offset ∈ t.session.ledger.pending
  · obtain ⟨committed, hcommits, hcontains⟩ := h.toCursors.containsKey_removeOffset hm hs'
    rw [hcontains k, h.retained k]
    simp [afterRemove, hm, hcommits, Finset.mem_filter]
  · rw [h.toCursors.removeOffset_absent hm hs', h.retained k]
    simp [afterRemove, hm]

theorem step (h : Retains t) {call : Call} (hstep : t.step call = some t') : Retains t' := by
  cases call with
  | addOffset o => exact h.addOffset hstep
  | removeOffset m => exact h.removeOffset hstep

/-- A call goes well exactly when it does not finish an offset again. -/
theorem survives_iff (h : Retains t) (call : Call) : t.Survives call ↔ t.FinishedOnce call := by
  cases call with
  | addOffset o => exact Iff.rfl
  | removeOffset m =>
    have hthrows := h.toCursors.removeOffset_throws_iff (m := m)
    rw [h.retained] at hthrows
    constructor
    · rintro ⟨t', ht', -⟩ hpending huncommitted
      have hnone := hthrows.2 ⟨hpending, huncommitted⟩
      simp [Tracked.step, hnone] at ht'
    · intro honce
      cases hs' : MessageQueue.step t.session (.removeOffset m) with
      | none =>
        obtain ⟨hpending, huncommitted⟩ := hthrows.1 hs'
        exact absurd huncommitted (honce hpending)
      | some s' =>
        refine ⟨⟨s', t.afterRemove m s'⟩, by simp [Tracked.step, hs'], ?_⟩
        obtain ⟨committed, -, hledger⟩ := step_removeOffset hs'
        show m.offset ∉ s'.door.offsets
        rw [(h.toCursors.removeOffset hs').pending, hledger]
        simp

end Retains

/-- For every sequence of calls, with offsets that are added any number of times: every call of
`RemoveOffset` returns, with the offset no longer pending, exactly when none of them finishes a
pending offset a second time before a commit has covered the first time. -/
theorem removals_return_iff (calls : List Call) :
    Along step Survives Tracked.init calls ↔ Along step FinishedOnce Tracked.init calls := by
  refine Along.congr (P := fun _ _ => True) Retains ?_ ?_ .init ?_
  · intro t call t' h _ _ hstep
    exact h.step hstep
  · intro t call h _
    exact h.survives_iff call
  · exact Along.of_forall (fun _ _ => trivial) _ calls

/-- Offset `2` is finished, but not committed because `1` is pending, and delivered again. Finishing
it a second time throws. -/
theorem redelivery_throws :
    ¬Along step Survives Tracked.init
      [.addOffset 1, .addOffset 2, .removeOffset ⟨"b", "t", 0, 2⟩, .addOffset 2,
        .removeOffset ⟨"b", "t", 0, 2⟩] := by
  rintro ⟨-, h⟩
  obtain ⟨-, h⟩ := h _ rfl
  obtain ⟨-, h⟩ := h _ rfl
  obtain ⟨-, h⟩ := h _ rfl
  obtain ⟨⟨t, ht, -⟩, -⟩ := h _ rfl
  cases ht

end Tracked

/-! ## Offsets in increasing order -/

/-- The finished offsets and the commits of a door whose offsets are added in increasing order. -/
structure Ordered (s : Session) : Prop extends Increasing s where
  retained : ∀ k, s.door.removedMessageOffsets.ContainsKey k ↔
    k ∈ s.ledger.removed ∧ ∀ c ∈ s.ledger.commits, c.offset < k
  ascending : s.ledger.commits.Pairwise fun c c' => c.offset < c'.offset
  finished : s.ledger.pending = ∅ → ∀ a ∈ s.ledger.added, 0 ≤ a →
    ∃ c ∈ s.ledger.commits, c.offset = s.door.lastOffset

namespace Ordered

theorem init : Ordered Session.init where
  toIncreasing := .init
  retained := by simp [Session.init, SlidingDoor.new, SortedList.ContainsKey, SortedList.empty]
  ascending := .nil
  finished := by simp [Session.init]

theorem addOffset (h : Ordered s) {o : Int} (ho : ∀ a ∈ s.ledger.added, a < o)
    (hstep : step s (.addOffset o) = some s') : Ordered s' := by
  have hincreasing := h.toIncreasing.addOffset ho hstep
  simp only [step, Option.some.injEq] at hstep
  subst hstep
  refine ⟨hincreasing, ?_, h.ascending, ?_⟩
  · simpa [SlidingDoor.addOffset, h.commitPerMessage] using h.retained
  · intro hempty
    exact absurd hempty (Finset.insert_ne_empty _ _)

/-- A pending offset lies beyond everything that has been committed. -/
theorem commit_lt_pending (h : Ordered s) {p : Int} (hp : p ∈ s.ledger.pending)
    {c : MessageOffset} (hc : c ∈ s.ledger.commits) : c.offset < p := by
  have hle := h.commits c hc
  have hnonneg := h.commits_nonneg c hc
  have hlt := h.lt_pending p hp
  omega

/-- When the last pending offset is removed, the offset that was added last is committed. -/
theorem commits_lastOffset (h : Ordered s) (hm : m.offset ∈ s.ledger.pending)
    (hlast : s.ledger.pending.erase m.offset = ∅) (hnonneg : 0 ≤ s.door.lastOffset)
    (hstep : step s (.removeOffset m) = some s') :
    ∃ c ∈ s'.ledger.commits, c.offset = s.door.lastOffset := by
  obtain ⟨removed, hadd, -, hledger⟩ := h.toCursors.removeOffset_pending hm hstep
  have hmadded : m.offset ∈ s.ledger.added := by
    rw [h.added]
    exact Finset.mem_union_left _ hm
  have hconsumed : consumedOf (s.ledger.pending.erase m.offset) s.door.lastOffset =
      s.door.lastOffset := by
    simp [consumedOf, hlast]
  have hleast : ∀ p ∈ s.ledger.pending.erase m.offset, m.offset < p := by simp [hlast]
  obtain ⟨c, hc⟩ := (commits_iff_of_least h.toIncreasing hm hleast hadd).2
    (by rw [hconsumed]; exact ⟨h.lastOffset_mem _ hmadded, hnonneg⟩)
  refine ⟨c, by rw [hledger, hc]; simp, ?_⟩
  obtain ⟨-, hentry⟩ := commitConsumed_some _ hc
  rw [(h.mem_finish hadd hentry).1, ← hconsumed, ← h.pending]

theorem removeOffset (h : Ordered s) (hm : m.offset ∈ s.ledger.pending)
    (hstep : step s (.removeOffset m) = some s') : Ordered s' := by
  have hincreasing := h.toIncreasing.removeOffset hm hstep
  obtain ⟨committed, hcommits, hcontains⟩ := h.toCursors.containsKey_removeOffset hm hstep
  obtain ⟨removed, hadd, hdoor, hledger⟩ := h.toCursors.removeOffset_pending hm hstep
  refine ⟨hincreasing, ?_, ?_, ?_⟩
  · intro k
    have hnew : k = m.offset → ∀ c ∈ s.ledger.commits, c.offset < k := by
      rintro rfl c hc
      exact h.commit_lt_pending hm hc
    have hall : (∀ c ∈ s'.ledger.commits, c.offset < k) ↔
        (∀ c ∈ s.ledger.commits, c.offset < k) ∧ ∀ c ∈ committed, c.offset < k := by
      simp [hcommits, or_imp, forall_and]
    have hremoved : k ∈ s'.ledger.removed ↔ k = m.offset ∨ k ∈ s.ledger.removed := by
      simp [hledger]
    rw [hcontains k, h.retained k, hall, hremoved, or_and_left, or_iff_right_of_imp hnew, and_assoc]
  · rw [hledger, List.pairwise_append]
    refine ⟨h.ascending, ?_, ?_⟩
    · exact Option.pairwise_toList
    · intro c hc c' hc'
      obtain ⟨hlt, hentry⟩ := commitConsumed_some _ (Option.mem_toList.1 hc')
      rw [(h.mem_finish hadd hentry).1]
      exact lt_of_le_of_lt (h.commits c hc) hlt
  · intro hempty a ha hnonneg
    have hlast : s'.door.lastOffset = s.door.lastOffset := by
      rw [hdoor, commitConsumed_lastOffset]
    rw [hledger] at hempty ha
    rw [hlast]
    exact h.commits_lastOffset hm hempty (le_trans hnonneg (h.le_lastOffset a ha)) hstep

theorem of_run (hcalls : Along step InOrder Session.init calls)
    (hrun : run step Session.init calls = some s) : Ordered s := by
  refine Along.invariant Ordered ?_ init hcalls hrun
  intro s call s' h hcall hstep
  cases call with
  | addOffset o => exact h.addOffset hcall hstep
  | removeOffset m => exact h.removeOffset hcall hstep

/-- To be beyond every commit is to be beyond the last one. -/
theorem beyond_commits_iff (h : Ordered s) {k : Int} :
    (∀ c ∈ s.ledger.commits, c.offset < k) ↔
      ∀ c, s.ledger.commits.getLast? = some c → c.offset < k := by
  constructor
  · intro hall c hc
    exact hall c (List.mem_of_getLast? hc)
  · intro hlast c hc
    have hget := List.getLast?_eq_some_getLast (List.ne_nil_of_mem hc)
    generalize s.ledger.commits.getLast _ = last at hget
    obtain ⟨front, hfront⟩ := List.getLast?_eq_some_iff.1 hget
    have hsorted := h.ascending
    rw [hfront, List.pairwise_append] at hsorted
    have hk := hlast last hget
    rw [hfront, List.mem_append, List.mem_singleton] at hc
    rcases hc with hc | rfl
    · exact lt_trans (hsorted.2.2 c hc last (List.mem_singleton_self _)) hk
    · exact hk

/-- Nothing beyond the offset that was added last has been committed. -/
theorem commit_le_lastOffset (h : Ordered s) {c : MessageOffset} (hc : c ∈ s.ledger.commits) :
    c.offset ≤ s.door.lastOffset := by
  have hle := h.commits c hc
  have hnonneg := h.commits_nonneg c hc
  rcases h.below with hnone | ⟨a, ha, hbelow⟩
  · omega
  · exact le_trans hle (le_trans hbelow (h.le_lastOffset a ha))

/-- Once nothing is pending, the last commit is the greatest offset that was added. -/
theorem getLast?_commits (h : Ordered s) (hpending : s.ledger.pending = ∅) {a : Int}
    (ha : a ∈ s.ledger.added) (hnonneg : 0 ≤ a) :
    ∃ c, s.ledger.commits.getLast? = some c ∧ c.offset ∈ s.ledger.added ∧
      ∀ b ∈ s.ledger.added, b ≤ c.offset := by
  obtain ⟨c, hc, hoffset⟩ := h.finished hpending a ha hnonneg
  have hget := List.getLast?_eq_some_getLast (List.ne_nil_of_mem hc)
  generalize s.ledger.commits.getLast _ = last at hget
  have hlast : last.offset = s.door.lastOffset := by
    apply le_antisymm
    · exact h.commit_le_lastOffset (List.mem_of_getLast? hget)
    · -- otherwise the offset that was added last would lie beyond every commit
      by_contra hlt
      have hbeyond : ∀ c ∈ s.ledger.commits, c.offset < s.door.lastOffset := by
        rw [h.beyond_commits_iff]
        intro c' hc'
        cases hget.symm.trans hc'
        exact not_le.1 hlt
      exact absurd (hbeyond c hc) (by rw [hoffset]; exact lt_irrefl _)
  refine ⟨last, hget, ?_, ?_⟩
  · rw [hlast]
    exact h.lastOffset_mem a ha
  · rw [hlast]
    exact h.le_lastOffset

end Ordered

theorem mem_added_of_run {a : Int} (hrun : run step s calls = some s')
    (ha : a ∈ s'.ledger.added) : a ∈ s.ledger.added ∨ Call.addOffset a ∈ calls := by
  induction calls generalizing s with
  | nil =>
    cases hrun
    exact .inl ha
  | cons call calls ih =>
    obtain ⟨t, ht, hrest⟩ := run_cons_eq_some.1 hrun
    rcases ih hrest with hadded | hcall
    · cases call with
      | addOffset o =>
        simp only [step, Option.some.injEq] at ht
        subst ht
        rcases Finset.mem_insert.1 hadded with rfl | hold
        · exact .inr List.mem_cons_self
        · exact .inl hold
      | removeOffset m =>
        obtain ⟨committed, -, hledger⟩ := step_removeOffset ht
        rw [hledger] at hadded
        exact .inl hadded
    · exact .inr (List.mem_cons_of_mem _ hcall)

/-- For offsets that are not negative, are added in increasing order and are removed while they are
pending, in every state that is reached: `RemovedMessageOffsets` holds the finished offsets beyond
the last one that was passed to `CommitOffset`, and as soon as nothing is pending, that last one is
the greatest offset that was added, and `RemovedMessageOffsets` is empty. -/
theorem retained_beyond_commit (hcalls : Along step InOrder Session.init calls)
    (hnonneg : ∀ o, Call.addOffset o ∈ calls → 0 ≤ o)
    (hrun : run step Session.init calls = some s) :
    (∀ k, s.door.removedMessageOffsets.ContainsKey k ↔
      k ∈ s.ledger.removed ∧ ∀ c, s.ledger.commits.getLast? = some c → c.offset < k) ∧
    (s.door.offsets = ∅ → s.ledger.added.Nonempty →
      (∃ c, s.ledger.commits.getLast? = some c ∧ c.offset ∈ s.ledger.added ∧
        ∀ a ∈ s.ledger.added, a ≤ c.offset) ∧
      s.door.removedMessageOffsets.entries = []) := by
  have h := Ordered.of_run hcalls hrun
  have hretained : ∀ k, s.door.removedMessageOffsets.ContainsKey k ↔
      k ∈ s.ledger.removed ∧ ∀ c, s.ledger.commits.getLast? = some c → c.offset < k := by
    intro k
    rw [h.retained k, h.beyond_commits_iff]
  refine ⟨hretained, ?_⟩
  rintro hempty ⟨a, ha⟩
  rw [h.pending] at hempty
  have hcall : Call.addOffset a ∈ calls := by
    rcases mem_added_of_run hrun ha with hinit | hcall
    · simp [Session.init] at hinit
    · exact hcall
  obtain ⟨c, hc, hmem, hgreatest⟩ := h.getLast?_commits hempty ha (hnonneg a hcall)
  refine ⟨⟨c, hc, hmem, hgreatest⟩, ?_⟩
  rw [List.eq_nil_iff_forall_not_mem]
  rintro ⟨k, v⟩ hv
  obtain ⟨hremoved, hbeyond⟩ := (hretained k).1 ⟨v, hv⟩
  have hadded : k ∈ s.ledger.added := by
    rw [h.added]
    exact Finset.mem_union_right _ hremoved
  exact absurd (hbeyond c hc) (not_lt.2 (hgreatest k hadded))

/-- Two offsets with a gap, finished out of order. -/
theorem retained_of_two_offsets :
    ∃ s, run step Session.init
        [.addOffset 1, .addOffset 5, .removeOffset ⟨"b", "t", 0, 5⟩,
          .removeOffset ⟨"b", "t", 0, 1⟩] = some s ∧
      s.door.offsets = ∅ ∧ s.ledger.added.Nonempty ∧
      s.door.removedMessageOffsets.entries = [] := by
  have hrun : run step Session.init
      [.addOffset 1, .addOffset 5, .removeOffset ⟨"b", "t", 0, 5⟩,
        .removeOffset ⟨"b", "t", 0, 1⟩] = some _ := rfl
  refine ⟨_, rfl, by decide, by decide, ?_⟩
  exact ((retained_beyond_commit (by decide) (by simp) hrun).2 (by decide) (by decide)).2

/-- An offset below the initial value of `LastCommittedOffset` is never committed. -/
theorem not_committed_of_negative :
    Along step InOrder Session.init [.addOffset (-5), .removeOffset ⟨"b", "t", 0, -5⟩] ∧
    ∃ s, run step Session.init [.addOffset (-5), .removeOffset ⟨"b", "t", 0, -5⟩] = some s ∧
      s.door.offsets = ∅ ∧ s.ledger.added = {-5} ∧ s.ledger.commits = [] ∧
      s.door.removedMessageOffsets.ContainsKey (-5) := by
  refine ⟨by decide, _, rfl, by decide, by decide, rfl, ?_⟩
  exact ⟨⟨"b", "t", 0, -5⟩, List.mem_singleton_self _⟩

end IFramework.MessageQueue
