import IFramework.Mailboxes.Transition

/-!
# Who holds the command thread, the dictionary and the handling flags

Three invariants that hold in every reachable state, whatever the batch count:

* `Thread`: at most one `Run` loop occupies the command thread, and exactly when the thread is
  inside `Run`;
* `Registered`: a mailbox is registered under its own key, and the mailbox the command thread is
  about to fill or to schedule is registered;
* `Handling`: the flag of a mailbox is set exactly when one `Run` loop of it has entered and not
  yet exchanged the flag back, and there is only one such loop.
-/

namespace IFramework.Mailboxes

variable {V E : Type} {batchCount : Nat} {s s' : State V E} {a : Action V E}

/-! ## The command thread -/

/-- The loop that occupies the command thread is unique, it runs, and the thread waits for it. -/
structure Thread (s : State V E) : Prop where
  running : ∀ r, (s.runs r).onCommandThread = true → s.commandPoint = .running
  unique : ∀ r q, (s.runs r).onCommandThread = true → (s.runs q).onCommandThread = true → r = q
  busy : s.commandPoint = .running → ∃ r, (s.runs r).onCommandThread = true ∧
    (s.runs r).point ≠ .ended ∧ ∀ m, (s.runs r).point ≠ .await m

namespace Thread

theorem init : Thread (State.init : State V E) := by
  refine ⟨?_, ?_, ?_⟩ <;> simp [State.init]

theorem of_runs (h : Thread s)
    (hruns : ∀ q, (s'.runs q).onCommandThread = true →
      (s.runs q).onCommandThread = true ∧ s'.commandPoint = .running)
    (hbusy : s'.commandPoint = .running → ∃ r, (s'.runs r).onCommandThread = true ∧
      (s'.runs r).point ≠ .ended ∧ ∀ m, (s'.runs r).point ≠ .await m) : Thread s' where
  running q hq := (hruns q hq).2
  unique r q hr hq := h.unique r q (hruns r hr).1 (hruns q hq).1
  busy := hbusy

theorem idle (h : Thread s) (hidle : s.commandPoint ≠ .running) (hruns : s'.runs = s.runs)
    (hidle' : s'.commandPoint ≠ .running) : Thread s' := by
  refine h.of_runs ?_ fun hpoint' => absurd hpoint' hidle'
  intro q hq
  rw [hruns] at hq
  exact absurd (h.running q hq) hidle

theorem enter (h : Thread s) (hidle : s.commandPoint ≠ .running) {r : Nat} {run : RunLoop V E}
    (hruns : s'.runs = Function.update s.runs r run) (hpoint' : s'.commandPoint = .running)
    (hthread : run.onCommandThread = true) (hend : run.point ≠ .ended)
    (hawait : ∀ m, run.point ≠ .await m) : Thread s' := by
  have honly : ∀ q, (s'.runs q).onCommandThread = true → q = r := by
    intro q hq
    by_contra hqr
    rw [hruns, Function.update_of_ne hqr] at hq
    exact hidle (h.running q hq)
  refine ⟨fun _ _ => hpoint', ?_, fun _ => ⟨r, ?_⟩⟩
  · intro q q' hq hq'
    rw [honly q hq, honly q' hq']
  · rw [hruns, Function.update_self]
    exact ⟨hthread, hend, hawait⟩

/-- A loop that moves on without giving the thread back keeps it occupied. -/
theorem move (h : Thread s) {r : Nat} {run : RunLoop V E}
    (hruns : s'.runs = Function.update s.runs r run) (hpoint' : s'.commandPoint = s.commandPoint)
    (hthread : run.onCommandThread = (s.runs r).onCommandThread)
    (hend : run.point ≠ .ended) (hawait : ∀ m, run.point ≠ .await m) : Thread s' := by
  have hthreads : ∀ q, (s'.runs q).onCommandThread = (s.runs q).onCommandThread := by
    intro q
    by_cases hqr : q = r
    · subst hqr
      rw [hruns, Function.update_self, hthread]
    · rw [hruns, Function.update_of_ne hqr]
  refine h.of_runs ?_ ?_
  · intro q hq
    rw [hthreads] at hq
    exact ⟨hq, hpoint'.trans (h.running q hq)⟩
  · intro hrunning
    obtain ⟨q, hq, hne, hna⟩ := h.busy (hpoint'.symm.trans hrunning)
    refine ⟨q, (hthreads q).trans hq, ?_⟩
    by_cases hqr : q = r
    · subst hqr
      rw [hruns, Function.update_self]
      exact ⟨hend, hawait⟩
    · rw [hruns, Function.update_of_ne hqr]
      exact ⟨hne, hna⟩

/-- A loop that gives the thread back leaves it free, or occupied by another loop. -/
theorem release (h : Thread s) {r : Nat} {run : RunLoop V E}
    (hruns : s'.runs = Function.update s.runs r run)
    (hpoint' : s'.commandPoint =
      if (s.runs r).onCommandThread then .take else s.commandPoint)
    (hthread : run.onCommandThread = false) : Thread s' := by
  have hother : ∀ q, (s'.runs q).onCommandThread = true →
      q ≠ r ∧ (s.runs q).onCommandThread = true := by
    intro q hq
    by_cases hqr : q = r
    · subst hqr
      rw [hruns, Function.update_self, hthread] at hq
      cases hq
    · rw [hruns, Function.update_of_ne hqr] at hq
      exact ⟨hqr, hq⟩
  refine h.of_runs ?_ ?_
  · intro q hq
    obtain ⟨hqr, hold⟩ := hother q hq
    have hfree : ¬(s.runs r).onCommandThread = true := fun hr => hqr (h.unique q r hold hr)
    rw [hpoint', if_neg hfree]
    exact ⟨hold, h.running q hold⟩
  · intro hrunning
    have hfree : ¬(s.runs r).onCommandThread = true := by
      intro hr
      rw [hpoint', if_pos hr] at hrunning
      cases hrunning
    rw [hpoint', if_neg hfree] at hrunning
    obtain ⟨q, hq, hne, hna⟩ := h.busy hrunning
    have hqr : q ≠ r := by
      rintro rfl
      exact hfree hq
    refine ⟨q, ?_⟩
    rw [hruns, Function.update_of_ne hqr]
    exact ⟨hq, hne, hna⟩

theorem step (h : Thread s) (ht : Transition batchCount s a s') : Thread s' := by
  cases ht with
  | processDirectly => exact h
  | processAdd => exact ⟨h.running, h.unique, h.busy⟩
  | takeProcess hpoint => exact h.idle (by simp [hpoint]) rfl (by simp)
  | takeComplete hpoint => exact h.idle (by simp [hpoint]) rfl (by simp)
  | getOrAddBlank hpoint => exact h.idle (by simp [hpoint]) rfl (by simp)
  | getOrAddFound hpoint => exact h.idle (by simp [hpoint]) rfl (by simp)
  | getOrAddNew hpoint => exact h.idle (by simp [hpoint]) rfl (by simp)
  | enqueue hpoint => exact h.idle (by simp [hpoint]) rfl (by simp)
  | scheduleBusy hpoint => exact h.idle (by simp [hpoint]) rfl (by simp)
  | scheduleRun hpoint => exact h.enter (by simp [hpoint]) rfl rfl rfl (by simp) (by simp)
  | countZero hpoint => exact h.idle (by simp [hpoint]) rfl (by simp)
  | countPositive hpoint => exact h.idle (by simp [hpoint]) rfl (by simp)
  | tryRemove hpoint => exact h.idle (by simp [hpoint]) rfl (by simp)
  | loopBreak => exact h.move rfl rfl rfl (by simp) (by simp)
  | loopDequeue => exact h.move rfl rfl rfl (by simp) (by simp)
  | set => exact h.move rfl rfl rfl (by simp) (by simp)
  | exchange => exact h.move rfl rfl rfl (by simp) (by simp)
  | isEmptyTrue => exact h.move rfl rfl rfl (by simp) (by simp)
  | isEmptyFalse => exact h.move rfl rfl rfl (by simp) (by simp)
  | rescheduleBusy => exact h.release rfl rfl rfl
  | rescheduleRun => exact h.move rfl rfl rfl (by simp) (by simp)
  | onMessageEmpty => exact h.release rfl rfl rfl
  | startSync => exact h.move rfl rfl rfl (by simp) (by simp)
  | startAsync => exact h.release rfl rfl rfl
  | complete => exact h.move rfl rfl rfl (by simp) (by simp)

end Thread

/-! ## The dictionary -/

/-- A registered mailbox exists and has the key it is registered under; the command thread fills
and schedules registered mailboxes only. -/
structure Registered (s : State V E) : Prop where
  dictionary : ∀ {k b}, s.mailboxDictionary k = some b →
    b < s.mailboxCount ∧ (s.mailboxes b).key = k
  enqueue : ∀ {b m}, s.commandPoint = .enqueue b m → s.mailboxDictionary m.key = some b
  schedule : ∀ {b}, s.commandPoint = .schedule b →
    s.mailboxDictionary (s.mailboxes b).key = some b

namespace Registered

theorem init : Registered (State.init : State V E) := by
  refine ⟨?_, ?_, ?_⟩ <;> simp [State.init]

theorem frame (h : Registered s) (hdict : s'.mailboxDictionary = s.mailboxDictionary)
    (hcount : s'.mailboxCount = s.mailboxCount)
    (hkeys : ∀ b, (s'.mailboxes b).key = (s.mailboxes b).key)
    (henqueue : ∀ b m, s'.commandPoint = .enqueue b m → s.mailboxDictionary m.key = some b)
    (hschedule : ∀ b, s'.commandPoint = .schedule b →
      s.mailboxDictionary (s.mailboxes b).key = some b) : Registered s' := by
  refine ⟨?_, ?_, ?_⟩
  · intro k b hk
    rw [hdict] at hk
    rw [hcount, hkeys]
    exact h.dictionary hk
  · intro b m hpoint
    rw [hdict]
    exact henqueue b m hpoint
  · intro b hpoint
    rw [hdict, hkeys]
    exact hschedule b hpoint

theorem release (h : Registered s) {r : Nat} (hdict : s'.mailboxDictionary = s.mailboxDictionary)
    (hcount : s'.mailboxCount = s.mailboxCount) (hboxes : s'.mailboxes = s.mailboxes)
    (hpoint' : s'.commandPoint = if (s.runs r).onCommandThread then .take else s.commandPoint) :
    Registered s' := by
  refine h.frame hdict hcount (fun b => by rw [hboxes]) ?_ ?_
  · intro b m hpoint
    rw [hpoint'] at hpoint
    split at hpoint
    · cases hpoint
    · exact h.enqueue hpoint
  · intro b hpoint
    rw [hpoint'] at hpoint
    split at hpoint
    · cases hpoint
    · exact h.schedule hpoint

theorem getOrAddNew (h : Registered s) {m : MailboxMessage} :
    Registered { s with
      mailboxDictionary := Function.update s.mailboxDictionary m.key (some s.mailboxCount)
      mailboxes := Function.update s.mailboxes s.mailboxCount ⟨m.key, [], false⟩
      mailboxCount := s.mailboxCount + 1
      commandPoint := .enqueue s.mailboxCount m } := by
  refine ⟨?_, ?_, by simp⟩
  · intro k b hk
    by_cases hkm : k = m.key
    · subst hkm
      have hb : s.mailboxCount = b := by simpa using hk
      subst hb
      simp
    · have hold := h.dictionary (by simpa [hkm] using hk)
      have hne : b ≠ s.mailboxCount := Nat.ne_of_lt hold.1
      refine ⟨Nat.lt_succ_of_lt hold.1, ?_⟩
      simpa [hne] using hold.2
  · intro b m' hpoint'
    cases hpoint'
    simp

theorem tryRemove (h : Registered s) {key : String} :
    Registered { s with
      mailboxDictionary := Function.update s.mailboxDictionary key none
      commandPoint := .take } := by
  refine ⟨?_, by simp, by simp⟩
  intro k b hk
  have hkey : k ≠ key := by
    rintro rfl
    simp at hk
  exact h.dictionary (by simpa [hkey] using hk)

theorem step (h : Registered s) (ht : Transition batchCount s a s') : Registered s' := by
  cases ht with
  | processDirectly => exact h
  | processAdd => exact ⟨h.dictionary, h.enqueue, h.schedule⟩
  | takeProcess => exact h.frame rfl rfl (fun _ => rfl) (by simp) (by simp)
  | takeComplete => exact h.frame rfl rfl (fun _ => rfl) (by simp) (by simp)
  | getOrAddBlank => exact h.frame rfl rfl (fun _ => rfl) (by simp) (by simp)
  | getOrAddFound hpoint hbox =>
    refine h.frame rfl rfl (fun _ => rfl) ?_ (by simp)
    intro b m hpoint'
    cases hpoint'
    exact hbox
  | getOrAddNew => exact h.getOrAddNew
  | @enqueue b m hpoint =>
    -- the filled mailbox keeps its key, so it is the one registered under the message's key
    have hbox := h.enqueue hpoint
    refine h.frame rfl rfl (State.key_setQueue s b _) (by simp) ?_
    intro c hc
    cases hc
    rw [(h.dictionary hbox).2]
    exact hbox
  | scheduleBusy => exact h.frame rfl rfl (fun _ => rfl) (by simp) (by simp)
  | @scheduleRun b => exact h.frame rfl rfl (State.key_setHandling s b _) (by simp) (by simp)
  | countZero => exact h.frame rfl rfl (fun _ => rfl) (by simp) (by simp)
  | countPositive => exact h.frame rfl rfl (fun _ => rfl) (by simp) (by simp)
  | tryRemove => exact h.tryRemove
  | @loopDequeue r =>
    exact h.frame rfl rfl (State.key_setQueue s (s.runs r).mailbox _) (fun _ _ => h.enqueue)
      (fun _ => h.schedule)
  | @exchange r =>
    exact h.frame rfl rfl (State.key_setHandling s (s.runs r).mailbox _) (fun _ _ => h.enqueue)
      (fun _ => h.schedule)
  | @rescheduleRun r =>
    exact h.frame rfl rfl (State.key_setHandling s (s.runs r).mailbox _) (fun _ _ => h.enqueue)
      (fun _ => h.schedule)
  | @rescheduleBusy r => exact h.release (r := r) rfl rfl rfl rfl
  | @onMessageEmpty r => exact h.release (r := r) rfl rfl rfl rfl
  | @startAsync r => exact h.release (r := r) rfl rfl rfl rfl
  | _ => exact ⟨h.dictionary, h.enqueue, h.schedule⟩

end Registered

/-! ## The handling flags -/

/-- The loop has entered its mailbox and not yet exchanged the handling flag back. -/
@[grind] def RunPoint.Active : RunPoint V E → Prop
  | .loop | .start _ | .await _ | .set _ _ | .exchange => True
  | .isEmpty | .reschedule | .onMessageEmpty | .ended => False

/-- The flag of a mailbox is set exactly when a loop of it is active, and one loop at most is. -/
structure Handling (s : State V E) : Prop where
  fresh_run : ∀ r, s.runCount ≤ r → (s.runs r).point = .ended
  fresh_mailbox : ∀ b, s.mailboxCount ≤ b → (s.mailboxes b).isHandlingMessage = false
  mailbox_lt : ∀ r, (s.runs r).point ≠ .ended → (s.runs r).mailbox < s.mailboxCount
  handling : ∀ r, (s.runs r).point.Active →
    (s.mailboxes (s.runs r).mailbox).isHandlingMessage = true
  unique : ∀ r q, (s.runs r).point.Active → (s.runs q).point.Active →
    (s.runs r).mailbox = (s.runs q).mailbox → r = q
  owner : ∀ b, (s.mailboxes b).isHandlingMessage = true →
    ∃ r, (s.runs r).point.Active ∧ (s.runs r).mailbox = b

namespace Handling

theorem init : Handling (State.init : State V E) := by
  refine ⟨?_, ?_, ?_, ?_, ?_, ?_⟩ <;> simp [State.init, RunPoint.Active]

/-- A loop of a mailbox whose flag is clear is not active. -/
theorem not_active (h : Handling s) {r : Nat}
    (hflag : (s.mailboxes (s.runs r).mailbox).isHandlingMessage = false) :
    ¬(s.runs r).point.Active := by
  intro hact
  simp [h.handling r hact] at hflag

/-- `EnterHandlingMessage` has succeeded on a clear flag and `Run` starts: a new loop of the
command thread, or the loop that reschedules itself. -/
theorem enter (h : Handling s) {b r : Nat} {run : RunLoop V E} {runCount : Nat}
    (hruns : s'.runs = Function.update s.runs r run) (hruns' : s'.runCount = runCount)
    (hb : b < s.mailboxCount) (hflag : (s.mailboxes b).isHandlingMessage = false)
    (hr : ¬(s.runs r).point.Active) (hrun : run.mailbox = b) (hpoint : run.point = .loop)
    (hcount : r < runCount ∧ s.runCount ≤ runCount)
    (hboxes : s'.mailboxes =
      Function.update s.mailboxes b { s.mailboxes b with isHandlingMessage := true })
    (hboxes' : s'.mailboxCount = s.mailboxCount) : Handling s' := by
  have hself : s'.runs r = run := by rw [hruns, Function.update_self]
  have hsame : ∀ q, q ≠ r → s'.runs q = s.runs q := by
    intro q hqr
    rw [hruns, Function.update_of_ne hqr]
  have hset : (s'.mailboxes b).isHandlingMessage = true := by
    rw [hboxes, Function.update_self]
  have hbox : ∀ c, c ≠ b → s'.mailboxes c = s.mailboxes c := by
    intro c hcb
    rw [hboxes, Function.update_of_ne hcb]
  have hother : ∀ q, (s.runs q).point.Active → (s.runs q).mailbox ≠ b := by
    intro q hq hqb
    rw [← hqb] at hflag
    exact h.not_active hflag hq
  refine ⟨?_, ?_, ?_, ?_, ?_, ?_⟩
  · intro q hq
    rw [hsame q (by omega)]
    exact h.fresh_run q (by omega)
  · intro c hc
    rw [hbox c (by omega)]
    exact h.fresh_mailbox c (by omega)
  · intro q hq
    by_cases hqr : q = r
    · rw [hqr, hself, hrun, hboxes']
      exact hb
    · rw [hsame q hqr] at hq ⊢
      rw [hboxes']
      exact h.mailbox_lt q hq
  · intro q hq
    by_cases hqr : q = r
    · rw [hqr, hself, hrun]
      exact hset
    · rw [hsame q hqr] at hq ⊢
      rw [hbox _ (hother q hq)]
      exact h.handling q hq
  · intro q p hq hp hqp
    by_cases hqr : q = r <;> by_cases hpr : p = r
    · rw [hqr, hpr]
    · rw [hsame p hpr] at hp hqp
      rw [hqr, hself, hrun] at hqp
      exact absurd hqp.symm (hother p hp)
    · rw [hsame q hqr] at hq hqp
      rw [hpr, hself, hrun] at hqp
      exact absurd hqp (hother q hq)
    · rw [hsame q hqr] at hq hqp
      rw [hsame p hpr] at hp hqp
      exact h.unique q p hq hp hqp
  · intro c hc
    by_cases hcb : c = b
    · refine ⟨r, ?_, by rw [hself, hrun, hcb]⟩
      rw [hself, hpoint]
      trivial
    · rw [hbox c hcb] at hc
      obtain ⟨q, hq, hqc⟩ := h.owner c hc
      have hqr : q ≠ r := by
        rintro rfl
        exact hr hq
      refine ⟨q, ?_⟩
      rw [hsame q hqr]
      exact ⟨hq, hqc⟩

/-- A loop leaves its mailbox: the flag it held is clear, and no loop of the mailbox is active. -/
theorem leave (h : Handling s) {r : Nat} {run : RunLoop V E} {mailbox : Mailbox}
    (hpoint : (s.runs r).point = .exchange)
    (hruns : s'.runs = Function.update s.runs r run) (hruns' : s'.runCount = s.runCount)
    (hrun : run.mailbox = (s.runs r).mailbox) (hrun' : ¬run.point.Active)
    (hboxes : s'.mailboxes = Function.update s.mailboxes (s.runs r).mailbox mailbox)
    (hflag : mailbox.isHandlingMessage = false) (hboxes' : s'.mailboxCount = s.mailboxCount) :
    Handling s' := by
  have hself : s'.runs r = run := by rw [hruns, Function.update_self]
  have hsame : ∀ q, q ≠ r → s'.runs q = s.runs q := by
    intro q hqr
    rw [hruns, Function.update_of_ne hqr]
  have hmailbox : ∀ q, (s'.runs q).mailbox = (s.runs q).mailbox := by
    intro q
    by_cases hqr : q = r
    · rw [hqr, hself, hrun]
    · rw [hsame q hqr]
  have hclear : (s'.mailboxes (s.runs r).mailbox).isHandlingMessage = false := by
    rw [hboxes, Function.update_self, hflag]
  have hbox : ∀ c, c ≠ (s.runs r).mailbox → s'.mailboxes c = s.mailboxes c := by
    intro c hcb
    rw [hboxes, Function.update_of_ne hcb]
  have hact : (s.runs r).point.Active := by
    rw [hpoint]
    trivial
  have hactive : ∀ q, (s'.runs q).point.Active → q ≠ r ∧ (s.runs q).point.Active := by
    intro q hq
    have hqr : q ≠ r := by
      rintro rfl
      exact hrun' (hself ▸ hq)
    exact ⟨hqr, hsame q hqr ▸ hq⟩
  refine ⟨?_, ?_, ?_, ?_, ?_, ?_⟩
  · intro q hq
    rw [hruns'] at hq
    have hqr : q ≠ r := by
      rintro rfl
      have hended := h.fresh_run q hq
      rw [hpoint] at hended
      cases hended
    rw [hsame q hqr]
    exact h.fresh_run q hq
  · intro c hc
    rw [hboxes'] at hc
    by_cases hcb : c = (s.runs r).mailbox
    · rw [hcb]
      exact hclear
    · rw [hbox c hcb]
      exact h.fresh_mailbox c hc
  · intro q hq
    rw [hmailbox, hboxes']
    refine h.mailbox_lt q ?_
    by_cases hqr : q = r
    · rw [hqr, hpoint]
      simp
    · rwa [hsame q hqr] at hq
  · intro q hq
    obtain ⟨hqr, hq⟩ := hactive q hq
    have hne : (s.runs q).mailbox ≠ (s.runs r).mailbox :=
      fun heq => hqr (h.unique q r hq hact heq)
    rw [hmailbox, hbox _ hne]
    exact h.handling q hq
  · intro q p hq hp hqp
    rw [hmailbox, hmailbox] at hqp
    exact h.unique q p (hactive q hq).2 (hactive p hp).2 hqp
  · intro c hc
    have hcb : c ≠ (s.runs r).mailbox := by
      rintro rfl
      rw [hclear] at hc
      cases hc
    rw [hbox c hcb] at hc
    obtain ⟨q, hq, hqc⟩ := h.owner c hc
    have hqr : q ≠ r := by
      rintro rfl
      exact hcb hqc.symm
    refine ⟨q, ?_⟩
    rw [hsame q hqr]
    exact ⟨hq, hqc⟩

/-- A loop moves on inside its mailbox, or outside it: who holds the flags does not change. -/
theorem move (h : Handling s) {r : Nat} {run : RunLoop V E}
    (hruns : s'.runs = Function.update s.runs r run) (hruns' : s'.runCount = s.runCount)
    (hrun : run.mailbox = (s.runs r).mailbox)
    (hact : run.point.Active ↔ (s.runs r).point.Active) (hend : (s.runs r).point ≠ .ended)
    (hflags : ∀ b, (s'.mailboxes b).isHandlingMessage = (s.mailboxes b).isHandlingMessage)
    (hboxes : s'.mailboxCount = s.mailboxCount) : Handling s' := by
  have hsame : ∀ q, q ≠ r → s'.runs q = s.runs q := by
    intro q hqr
    rw [hruns, Function.update_of_ne hqr]
  have hread : ∀ q, ((s'.runs q).point.Active ↔ (s.runs q).point.Active) ∧
      (s'.runs q).mailbox = (s.runs q).mailbox := by
    intro q
    by_cases hqr : q = r
    · rw [hqr, hruns, Function.update_self]
      exact ⟨hact, hrun⟩
    · rw [hsame q hqr]
      exact ⟨Iff.rfl, rfl⟩
  refine ⟨?_, ?_, ?_, ?_, ?_, ?_⟩
  · intro q hq
    rw [hruns'] at hq
    have hqr : q ≠ r := by
      rintro rfl
      exact hend (h.fresh_run q hq)
    rw [hsame q hqr]
    exact h.fresh_run q hq
  · intro b hb
    rw [hflags]
    exact h.fresh_mailbox b (hboxes ▸ hb)
  · intro q hq
    rw [(hread q).2, hboxes]
    by_cases hqr : q = r
    · exact h.mailbox_lt q (hqr ▸ hend)
    · rw [hsame q hqr] at hq
      exact h.mailbox_lt q hq
  · intro q hq
    rw [hflags, (hread q).2]
    exact h.handling q ((hread q).1.1 hq)
  · intro q p hq hp hqp
    rw [(hread q).2, (hread p).2] at hqp
    exact h.unique q p ((hread q).1.1 hq) ((hread p).1.1 hp) hqp
  · intro b hb
    rw [hflags] at hb
    obtain ⟨q, hq, hqb⟩ := h.owner b hb
    exact ⟨q, (hread q).1.2 hq, by rw [(hread q).2, hqb]⟩

/-- A step that changes no flag of an existing mailbox, and no loop. -/
theorem frame (h : Handling s) (hruns : s'.runs = s.runs) (hruns' : s'.runCount = s.runCount)
    (hflags : ∀ b, (s'.mailboxes b).isHandlingMessage = (s.mailboxes b).isHandlingMessage)
    (hboxes : s.mailboxCount ≤ s'.mailboxCount) : Handling s' := by
  refine ⟨?_, ?_, ?_, ?_, ?_, ?_⟩
  · rw [hruns, hruns']
    exact h.fresh_run
  · intro b hb
    rw [hflags]
    exact h.fresh_mailbox b (Nat.le_trans hboxes hb)
  · intro r hr
    rw [hruns] at hr ⊢
    exact Nat.lt_of_lt_of_le (h.mailbox_lt r hr) hboxes
  · intro r hr
    rw [hruns] at hr ⊢
    rw [hflags]
    exact h.handling r hr
  · rw [hruns]
    exact h.unique
  · intro b hb
    rw [hflags] at hb
    rw [hruns]
    exact h.owner b hb

theorem step (hreg : Registered s) (h : Handling s) (ht : Transition batchCount s a s') :
    Handling s' := by
  cases ht with
  | @getOrAddNew m hpoint hbox =>
    -- the flag of a mailbox that did not exist was clear
    refine h.frame rfl rfl ?_ (Nat.le_succ _)
    intro b
    by_cases hb : b = s.mailboxCount
    · subst hb
      simp [h.fresh_mailbox s.mailboxCount (Nat.le_refl _)]
    · simp [hb]
  | @scheduleRun b hpoint hflag =>
    have hb := (hreg.dictionary (hreg.schedule hpoint)).1
    have hend : ¬(s.runs s.runCount).point.Active := by
      simp [h.fresh_run s.runCount (Nat.le_refl _), RunPoint.Active]
    exact h.enter rfl rfl hb hflag hend rfl rfl ⟨Nat.lt_succ_self _, Nat.le_succ _⟩
      rfl rfl
  | @rescheduleRun r hpoint hflag =>
    have hr : r < s.runCount := by
      by_contra hge
      simp [h.fresh_run r (Nat.not_lt.1 hge)] at hpoint
    exact h.enter rfl rfl (h.mailbox_lt r (by simp [hpoint])) hflag (h.not_active hflag) rfl rfl
      ⟨hr, Nat.le_refl _⟩ rfl rfl
  | exchange hpoint => exact h.leave hpoint rfl rfl rfl (fun hact => hact) rfl rfl rfl
  | @enqueue b m hpoint =>
    exact h.frame rfl rfl (s.isHandlingMessage_setQueue b _) (Nat.le_refl _)
  | @loopDequeue r m rest hpoint =>
    exact h.move rfl rfl rfl (by simp [hpoint, RunPoint.Active]) (by simp [hpoint])
      (s.isHandlingMessage_setQueue (s.runs r).mailbox rest) rfl
  | loopBreak hpoint | set hpoint | isEmptyTrue hpoint | isEmptyFalse hpoint
  | rescheduleBusy hpoint | onMessageEmpty hpoint | startSync hpoint | startAsync hpoint
  | complete hpoint =>
    exact h.move rfl rfl rfl (by simp [hpoint, RunPoint.Active]) (by simp [hpoint])
      (fun _ => rfl) rfl
  | _ => exact ⟨h.fresh_run, h.fresh_mailbox, h.mailbox_lt, h.handling, h.unique, h.owner⟩

end Handling

end IFramework.Mailboxes
