import IFramework.Mailboxes.Delivery

/-!
# Mailboxes that are no longer registered

`CompleteProcessMessage` removes whatever mailbox is registered under a key once the queue of the
mailbox *named in the command* is empty. The message that mailbox is handling is not in its queue,
and the registered mailbox may be another one by the time a stale command is executed, so a mailbox
can be detached from the dictionary while it still has work. This module follows what is known of
the detached mailboxes as long as the removals only find mailboxes that are idle.

What idle means is a parameter: the points `P` at which a loop still has something to do with its
message. It covers the message in hand before its task is started, and no more than the time until
the task has finished.
-/

namespace IFramework.Mailboxes

open Machine

variable {V E : Type} {batchCount : Nat} {s s' : State V E} {a : Action V E}

/-- The loop has taken a message whose task is still to be started. -/
@[grind] def RunPoint.Unstarted : RunPoint V E → Prop
  | .start _ => True
  | .loop | .await _ | .set _ _ | .exchange | .isEmpty | .reschedule | .onMessageEmpty
  | .ended => False

instance : DecidablePred (RunPoint.Unstarted (V := V) (E := E))
  | .start _ => isTrue trivial
  | .loop | .await _ | .set _ _ | .exchange | .isEmpty | .reschedule | .onMessageEmpty
  | .ended => isFalse id

/-- The loop has taken a message whose task is still to be started or to finish. -/
@[grind] def RunPoint.Unfinished : RunPoint V E → Prop
  | .start _ | .await _ => True
  | .loop | .set _ _ | .exchange | .isEmpty | .reschedule | .onMessageEmpty | .ended => False

instance : DecidablePred (RunPoint.Unfinished (V := V) (E := E))
  | .start _ | .await _ => isTrue trivial
  | .loop | .set _ _ | .exchange | .isEmpty | .reschedule | .onMessageEmpty | .ended => isFalse id

/-- The points cover a message in hand until its task is started, and no message whose task has
finished. -/
structure Covers (P : RunPoint V E → Prop) : Prop where
  start : ∀ m, P (.start m)
  unfinished : ∀ p, P p → p.Unfinished

theorem Covers.unstarted : Covers (RunPoint.Unstarted (V := V) (E := E)) where
  start _ := trivial
  unfinished p hp := by cases p <;> simp_all [RunPoint.Unstarted, RunPoint.Unfinished]

theorem Covers.self : Covers (RunPoint.Unfinished (V := V) (E := E)) where
  start _ := trivial
  unfinished _ := id

section Idle

variable (P : RunPoint V E → Prop)

/-- Nothing is queued in the mailbox, and no loop of it is at one of the points. -/
def Idle (s : State V E) (b : Nat) : Prop :=
  (s.mailboxes b).messageQueue = [] ∧
    ∀ r < s.runCount, (s.runs r).mailbox = b → ¬P (s.runs r).point

instance [DecidablePred P] (s : State V E) : DecidablePred (Idle P s) :=
  fun _ => inferInstanceAs (Decidable (_ ∧ _))

/-- If the action is a `TryRemove`, the mailbox registered under the key is idle. -/
def RemovesIdle (s : State V E) : Action V E → Prop
  | .command =>
    match s.commandPoint with
    | .tryRemove b => ∀ c ∈ s.mailboxDictionary (s.mailboxes b).key, Idle P s c
    | _ => True
  | _ => True

instance [DecidablePred P] (s : State V E) : DecidablePred (RemovesIdle P s)
  | .command =>
    match h : s.commandPoint with
    | .tryRemove b =>
      decidable_of_iff (∀ c ∈ s.mailboxDictionary (s.mailboxes b).key, Idle P s c)
        (by simp [RemovesIdle, h])
    | .take | .getOrAdd _ | .enqueue _ _ | .schedule _ | .running | .count _ =>
      isTrue (by simp [RemovesIdle, h])
  | .process _ _ _ | .run _ | .startSync _ _ | .startAsync _ | .complete _ _ => isTrue trivial

/-- A mailbox that is not, or no longer, registered under its key is idle. -/
def DetachedIdle (s : State V E) : Prop :=
  ∀ b, b < s.mailboxCount → s.mailboxDictionary (s.mailboxes b).key ≠ some b → Idle P s b

end Idle

namespace DetachedIdle

variable {P : RunPoint V E → Prop}

theorem init : DetachedIdle P (State.init : State V E) := by
  intro b hb
  simp [State.init] at hb

/-- The mailbox of a loop at one of the points is registered. -/
theorem registered (hP : Covers P) (hwf : WellFormed s) (h : DetachedIdle P s) {r : Nat}
    (hr : P (s.runs r).point) :
    s.mailboxDictionary (s.mailboxes (s.runs r).mailbox).key = some (s.runs r).mailbox := by
  by_contra hdetached
  have hend : (s.runs r).point ≠ .ended := by
    intro hend
    have hunfinished := hP.unfinished _ hr
    simp [hend, RunPoint.Unfinished] at hunfinished
  have hlt : (s.runs r).mailbox < s.mailboxCount := hwf.handling.mailbox_lt r hend
  have hr' : r < s.runCount := by
    by_contra hge
    exact hend (hwf.handling.fresh_run r (Nat.not_lt.1 hge))
  exact (h _ hlt hdetached).2 r hr' rfl hr

theorem registered_of_queue (hwf : WellFormed s) (h : DetachedIdle P s) {b : Nat}
    (hb : (s.mailboxes b).messageQueue ≠ []) :
    s.mailboxDictionary (s.mailboxes b).key = some b := by
  by_contra hdetached
  have hlt : b < s.mailboxCount := by
    by_contra hge
    exact hb (hwf.flow.queue_fresh (Nat.not_lt.1 hge))
  exact hb (h b hlt hdetached).1

/-- The dictionary does not change, a queue that does is the queue of a registered mailbox, and a
loop that is at one of the points after the step was so before or is a loop of a registered
mailbox. -/
theorem frame (hP : Covers P) (hwf : WellFormed s) (h : DetachedIdle P s)
    (hdict : s'.mailboxDictionary = s.mailboxDictionary) (hcount : s'.mailboxCount = s.mailboxCount)
    (hboxes : ∀ b, (s'.mailboxes b).key = (s.mailboxes b).key ∧
      ((s'.mailboxes b).messageQueue = (s.mailboxes b).messageQueue ∨
        s.mailboxDictionary (s.mailboxes b).key = some b))
    (hruns : ∀ r, P (s'.runs r).point →
      s.mailboxDictionary (s.mailboxes (s'.runs r).mailbox).key = some (s'.runs r).mailbox ∨
        s'.runs r = s.runs r) : DetachedIdle P s' := by
  intro b hb hdetached
  rw [hcount] at hb
  rw [hdict, (hboxes b).1] at hdetached
  refine ⟨by rw [(hboxes b).2.resolve_right hdetached, (h b hb hdetached).1], ?_⟩
  rintro r - rfl hr
  rcases hruns r hr with hreg | hsame
  · exact hdetached hreg
  · rw [hsame] at hr hdetached
    exact hdetached (h.registered hP hwf hr)

/-- A loop moves on: its task has finished or it has none, or its mailbox is registered. -/
theorem move (hP : Covers P) (hwf : WellFormed s) (h : DetachedIdle P s) {r : Nat}
    {run : RunLoop V E}
    (hruns : s'.runs = Function.update s.runs r run)
    (hpoint : ¬run.point.Unfinished ∨
      s.mailboxDictionary (s.mailboxes run.mailbox).key = some run.mailbox)
    (hdict : s'.mailboxDictionary = s.mailboxDictionary) (hcount : s'.mailboxCount = s.mailboxCount)
    (hboxes : ∀ b, (s'.mailboxes b).key = (s.mailboxes b).key ∧
      ((s'.mailboxes b).messageQueue = (s.mailboxes b).messageQueue ∨
        s.mailboxDictionary (s.mailboxes b).key = some b)) : DetachedIdle P s' := by
  refine h.frame hP hwf hdict hcount hboxes ?_
  intro q hq
  by_cases hqr : q = r
  · subst hqr
    simp only [hruns, Function.update_self] at hq ⊢
    exact .inl (hpoint.resolve_left (not_not_intro (hP.unfinished _ hq)))
  · exact .inr (by simp [hruns, hqr])

/-- Dropping a mailbox from the dictionary detaches that mailbox only. -/
theorem remove (h : DetachedIdle P s) {k : String}
    (hidle : ∀ c, s.mailboxDictionary k = some c → Idle P s c) {point : CommandPoint} :
    DetachedIdle P
      { s with
        mailboxDictionary := Function.update s.mailboxDictionary k none
        commandPoint := point } := by
  intro b hb hdetached
  by_cases hold : s.mailboxDictionary (s.mailboxes b).key = some b
  · have hk : (s.mailboxes b).key = k := by
      by_contra hk
      simp [hk, hold] at hdetached
    exact hidle b (hk ▸ hold)
  · exact h b hb hold

theorem create (h : DetachedIdle P s) {k : String} (hbox : s.mailboxDictionary k = none)
    {point : CommandPoint} :
    DetachedIdle P
      { s with
        mailboxDictionary := Function.update s.mailboxDictionary k (some s.mailboxCount)
        mailboxes := Function.update s.mailboxes s.mailboxCount ⟨k, [], false⟩
        mailboxCount := s.mailboxCount + 1
        commandPoint := point } := by
  intro b hb hdetached
  have hne : b ≠ s.mailboxCount := by
    rintro rfl
    simp at hdetached
  have hold : s.mailboxDictionary (s.mailboxes b).key ≠ some b := by
    intro hreg
    have hk : (s.mailboxes b).key ≠ k := by
      intro hk
      rw [hk, hbox] at hreg
      cases hreg
    simp [hne, hk, hreg] at hdetached
  have hlt : b < s.mailboxCount := Nat.lt_of_le_of_ne (Nat.le_of_lt_succ hb) hne
  obtain ⟨hqueue, hnone⟩ := h b hlt hold
  exact ⟨by simp [hne, hqueue], hnone⟩

theorem step (hP : Covers P) (hwf : WellFormed s) (h : DetachedIdle P s)
    (hremove : RemovesIdle P s a) (ht : Transition batchCount s a s') : DetachedIdle P s' := by
  cases ht with
  | getOrAddNew hpoint hbox => exact h.create hbox
  | @enqueue b m hpoint =>
    have hbox := hwf.registered.enqueue hpoint
    have hreg : s.mailboxDictionary (s.mailboxes b).key = some b := by
      rw [(hwf.registered.dictionary hbox).2, hbox]
    exact h.frame hP hwf rfl rfl (by grind [Function.update]) (fun _ _ => .inr rfl)
  | tryRemove hpoint =>
    simp only [RemovesIdle, hpoint] at hremove
    exact h.remove hremove
  | @loopDequeue r m rest hpoint hbatch hqueue =>
    have hreg := h.registered_of_queue hwf (b := (s.runs r).mailbox) (by simp [hqueue])
    exact h.move hP hwf rfl (.inr hreg) rfl rfl (by grind [Function.update])
  | startAsync hpoint =>
    have hreg := h.registered hP hwf (by rw [hpoint]; exact hP.start _)
    exact h.move hP hwf rfl (.inr hreg) rfl rfl (fun _ => ⟨rfl, .inl rfl⟩)
  | scheduleRun hpoint | loopBreak hpoint | set hpoint | exchange hpoint | isEmptyTrue hpoint
  | isEmptyFalse hpoint | rescheduleBusy hpoint | rescheduleRun hpoint | onMessageEmpty hpoint
  | startSync hpoint | complete hpoint =>
    exact h.move hP hwf rfl (.inl id) rfl rfl (by grind [Function.update])
  | _ => exact h.frame hP hwf rfl rfl (fun _ => ⟨rfl, .inl rfl⟩) (fun _ _ => .inr rfl)

/-- What holds of the detached mailboxes, with the other invariants, at the end of every run whose
removals only find idle mailboxes. -/
theorem of_along (hP : Covers P) {as : List (Action V E)}
    (halong : Along (Mailboxes.step batchCount) (RemovesIdle P) State.init as)
    (hrun : run (Mailboxes.step batchCount) State.init as = some s) :
    WellFormed s ∧ DetachedIdle P s :=
  Along.invariant (fun s => WellFormed s ∧ DetachedIdle P s)
    (fun _ _ _ h hremove hstep =>
      ⟨h.1.step (.of_step hstep), h.2.step hP h.1 hremove (.of_step hstep)⟩)
    ⟨.init, .init⟩ halong hrun

end DetachedIdle

end IFramework.Mailboxes
