import IFramework.Commands.CommandBus

/-!
# Whether a call gets its reply

A reply completes the call whose entry is found under its id. Of two calls that are registered under
one id the second one has no entry, and a cancelled call removes the entry under the id of its
command, whichever call this entry belongs to. `delivers_of_undisturbed` says that nothing else goes
wrong, in any interleaving: in a run in which no operation meets the entry of another call,
each reply completes the pending calls that were registered under its id, and no cancellation
takes the entry of another call away.
-/

namespace IFramework.Commands.CommandBus

open Machine

variable {ε ρ : Type} {s s' : State ε ρ}

/-! ## The property -/

/-- A call of `ConsumeReply` that ends in this step completes, with its reply, the tasks of the
calls that were registered under its id before it looked the id up, as far as they are pending. -/
def Answers (s s' : State ε ρ) : Prop :=
  ∀ h, (s.replies h).point ≠ .finished → (s'.replies h).point = .finished →
    ∀ i ∈ (s'.replies h).earlier, (s.states i).key = (s.replies h).correlationId →
      (s.states i).reply = .pending → (s'.states i).reply = (s.replies h).outcome

/-- The call waits for its reply, which will find its entry. -/
def Awaits (s : State ε ρ) (i : Nat) : Prop :=
  (s.states i).reply = .pending ∧ s.commandStateQueues (s.states i).key = some i

/-- The operations of `OnReplyCancel` for a call. -/
def Cancels (i : Nat) (a : Action ε ρ) : Prop := a = .trySetCanceled i ∨ a = .cancelTryRemove i

/-- A reply that has been processed was delivered, and a cancellation disturbs no other call. -/
def Delivers (s : State ε ρ) (a : Action ε ρ) : Prop :=
  ∀ s', step s a = some s' →
    Answers s s' ∧ ∀ i, Cancels i a → ∀ j, j ≠ i → Awaits s j → Awaits s' j

/-! ## The condition -/

/-- The operation does not meet the entry of another call: `GetOrAdd` finds the key free, and no
`ConsumeReply` is about to remove it; `TryGetValue` is not called while another `ConsumeReply` of
the id has removed the entry and not yet completed the task; `OnReplyCancel` finds no entry of
another pending call under the id of its command. -/
def Undisturbed (s : State ε ρ) : Action ε ρ → Prop
  | .getOrAdd i =>
    s.commandStateQueues (s.states i).key = none ∧
      ∀ h < s.replyCount, (s.replies h).point.isTryRemove →
        (s.replies h).correlationId ≠ (s.states i).key
  | .tryGetValue h =>
    ∀ h' < s.replyCount, (s.replies h').point.isTrySet →
      (s.replies h').correlationId ≠ (s.replies h).correlationId
  | .cancelTryRemove i =>
    ∀ j ∈ s.commandStateQueues (s.states i).messageID, j = i ∨ (s.states j).reply.IsCompleted
  | _ => True

instance (s : State ε ρ) (a : Action ε ρ) : Decidable (Undisturbed s a) :=
  match a with
  | .getOrAdd _ => inferInstanceAs (Decidable (_ ∧ ∀ h < s.replyCount, _ → _))
  | .tryGetValue _ => inferInstanceAs (Decidable (∀ h' < s.replyCount, _ → _))
  | .cancelTryRemove i =>
    inferInstanceAs (Decidable (∀ j ∈ s.commandStateQueues (s.states i).messageID, _ ∨ _))
  | .build _ _ => isTrue trivial
  | .trySetCanceled _ => isTrue trivial
  | .receive _ => isTrue trivial
  | .replyTryRemove _ => isTrue trivial
  | .trySetReply _ => isTrue trivial

/-! ## The invariant -/

/-- A call of `ConsumeReply` has found this message state. -/
def Holds (r : ConsumeReply ε ρ) (i : Nat) : Prop := r.point = .tryRemove i ∨ r.point = .trySet i

/-- The entries against the calls: a pending call that was registered has its entry, or a
`ConsumeReply` is about to complete it. -/
structure Consistent (s : State ε ρ) : Prop where
  registered : ∀ i ∈ s.registrations, i < s.stateCount
  cancelled : ∀ i, (s.states i).token ≠ .live → (s.states i).reply ≠ .pending
  entry : ∀ k i, s.commandStateQueues k = some i → (s.states i).key = k ∧ i ∈ s.registrations
  awaited : ∀ i ∈ s.registrations, (s.states i).reply = .pending →
    s.commandStateQueues (s.states i).key = some i ∨ ∃ h, (s.replies h).point = .trySet i
  outcome : ∀ h, (s.replies h).point ≠ .finished → (s.replies h).outcome.IsCompleted
  held : ∀ h i, Holds (s.replies h) i →
    (s.states i).key = (s.replies h).correlationId ∧ i ∈ s.registrations
  earlier : ∀ h i, Holds (s.replies h) i → ∀ j ∈ (s.replies h).earlier,
    j ∈ s.registrations ∧
      ((s.states j).key = (s.replies h).correlationId → (s.states j).reply = .pending → j = i)
  only : ∀ h i, (s.replies h).point = .tryRemove i →
    ∀ j, s.commandStateQueues (s.replies h).correlationId = some j → j = i
  fresh : ∀ h, s.replyCount ≤ h → (s.replies h).point = .finished

namespace Consistent

theorem init : Consistent (State.init : State ε ρ) where
  registered := by simp [State.init]
  cancelled := by simp [State.init]
  entry := by simp [State.init]
  awaited := by simp [State.init]
  outcome := by simp [State.init]
  held := by simp [State.init, Holds]
  earlier := by simp [State.init, Holds]
  only := by simp [State.init]
  fresh := by simp [State.init]

theorem of_evolves (h : Consistent s) (hev : Evolves s s')
    (htable : s'.commandStateQueues = s.commandStateQueues)
    (hregistrations : s'.registrations = s.registrations) (hreplies : s'.replies = s.replies)
    (hcount : s'.replyCount = s.replyCount)
    (hcancelled : ∀ i, (s'.states i).token ≠ .live → (s'.states i).reply ≠ .pending) :
    Consistent s' := by
  have hkey : ∀ i ∈ s.registrations, (s'.states i).key = (s.states i).key :=
    fun i hi => hev.key i (h.registered i hi)
  have hpending : ∀ i ∈ s.registrations, (s'.states i).reply = .pending →
      (s.states i).reply = .pending := fun i hi => hev.pending i (h.registered i hi)
  refine ⟨?_, hcancelled, ?_, ?_, ?_, ?_, ?_, ?_, ?_⟩
  · intro i hi
    rw [hregistrations] at hi
    exact Nat.lt_of_lt_of_le (h.registered i hi) hev.stateCount
  · intro k i hentry
    rw [htable] at hentry
    obtain ⟨hk, hi⟩ := h.entry k i hentry
    exact ⟨(hkey i hi).trans hk, hregistrations ▸ hi⟩
  · intro i hi hreply
    rw [hregistrations] at hi
    rw [htable, hreplies, hkey i hi]
    exact h.awaited i hi (hpending i hi hreply)
  · rw [hreplies]
    exact h.outcome
  · intro r i hr
    rw [hreplies] at hr ⊢
    obtain ⟨hk, hi⟩ := h.held r i hr
    exact ⟨(hkey i hi).trans hk, hregistrations ▸ hi⟩
  · intro r i hr j hj
    rw [hreplies] at hr hj ⊢
    obtain ⟨hmem, honly⟩ := h.earlier r i hr j hj
    rw [hkey j hmem]
    exact ⟨hregistrations ▸ hmem, fun hk hreply => honly hk (hpending j hmem hreply)⟩
  · rw [hreplies, htable]
    exact h.only
  · rw [hreplies, hcount]
    exact h.fresh

/-- What has to hold of a call of `ConsumeReply` that takes the place of another one. -/
theorem setReply (h : Consistent s) (k : Nat) (r : ConsumeReply ε ρ) (n : Nat)
    (houtcome : r.point ≠ .finished → r.outcome.IsCompleted)
    (hheld : ∀ i, Holds r i → (s.states i).key = r.correlationId ∧ i ∈ s.registrations ∧
      ∀ j ∈ r.earlier, j ∈ s.registrations ∧
        ((s.states j).key = r.correlationId → (s.states j).reply = .pending → j = i))
    (honly : ∀ i, r.point = .tryRemove i → ∀ j,
      s.commandStateQueues r.correlationId = some j → j = i)
    (hawaited : ∀ i, (s.replies k).point = .trySet i → (s.states i).reply = .pending →
      r.point = .trySet i)
    (hn : s.replyCount ≤ n) (hk : k < n ∨ r.point = .finished) :
    Consistent { s with replies := Function.update s.replies k r, replyCount := n } := by
  refine ⟨h.registered, h.cancelled, h.entry, ?_, ?_, ?_, ?_, ?_, ?_⟩
  · intro i hi hreply
    rcases h.awaited i hi hreply with hentry | ⟨k', hk'⟩
    · exact .inl hentry
    · refine .inr ⟨k', ?_⟩
      by_cases heq : k' = k
      · subst heq
        simpa using hawaited i hk' hreply
      · simpa [heq] using hk'
  · intro k' hk'
    by_cases heq : k' = k
    · subst heq
      simpa using houtcome (by simpa using hk')
    · simpa [heq] using h.outcome k' (by simpa [heq] using hk')
  · intro k' i hi
    by_cases heq : k' = k
    · subst heq
      simp only [Function.update_self] at hi ⊢
      obtain ⟨hkey, hmem, -⟩ := hheld i hi
      exact ⟨hkey, hmem⟩
    · simp only [Function.update_of_ne heq] at hi ⊢
      exact h.held k' i hi
  · intro k' i hi
    by_cases heq : k' = k
    · subst heq
      simp only [Function.update_self] at hi ⊢
      exact (hheld i hi).2.2
    · simp only [Function.update_of_ne heq] at hi ⊢
      exact h.earlier k' i hi
  · intro k' i hi
    by_cases heq : k' = k
    · subst heq
      simp only [Function.update_self] at hi ⊢
      exact honly i hi
    · simp only [Function.update_of_ne heq] at hi ⊢
      exact h.only k' i hi
  · intro k' hle
    by_cases heq : k' = k
    · subst heq
      simp only [Function.update_self]
      rcases hk with hlt | hfinished
      · exact absurd hle (Nat.not_le.2 hlt)
      · exact hfinished
    · simp only [Function.update_of_ne heq]
      exact h.fresh k' (Nat.le_trans hn hle)

/-- An entry can be removed when its call is not pending, or is about to be completed. -/
theorem tryRemove (h : Consistent s) (k : String)
    (hk : ∀ j, s.commandStateQueues k = some j → (s.states j).reply = .pending →
      ∃ r, (s.replies r).point = .trySet j) : Consistent (s.tryRemove k) := by
  have hsub : ∀ {k' : String} {i : Nat}, (s.tryRemove k).commandStateQueues k' = some i →
      s.commandStateQueues k' = some i := by
    intro k' i hi
    by_cases heq : k' = k
    · simp [heq] at hi
    · simpa [heq] using hi
  refine ⟨h.registered, h.cancelled, fun k' i hi => h.entry k' i (hsub hi), ?_, h.outcome, h.held,
    h.earlier, fun r i hr j hj => h.only r i hr j (hsub hj), h.fresh⟩
  intro i hi hreply
  rcases h.awaited i hi hreply with hentry | hcomplete
  · by_cases heq : (s.states i).key = k
    · exact .inr (hk i (heq ▸ hentry) hreply)
    · exact .inl (by simpa [heq] using hentry)
  · exact .inr hcomplete

theorem lt_of_point (h : Consistent s) {k : Nat} (hk : (s.replies k).point ≠ .finished) :
    k < s.replyCount := by
  by_contra hge
  exact hk (h.fresh k (Nat.le_of_not_lt hge))

/-! ### The operations -/

theorem build (h : Consistent s) {messageID : String} {sagaId : Option String}
    (ht : Transition s (.build messageID sagaId) s') : Consistent s' := by
  cases ht
  have hne : ∀ i, i < s.stateCount → i ≠ s.stateCount := fun i hi => Nat.ne_of_lt hi
  refine h.of_evolves ⟨Nat.le_succ _, ?_, ?_⟩ rfl rfl rfl rfl ?_
  · intro i hi
    simp [hne i hi]
  · intro i hi
    simp [hne i hi]
  · intro i hi
    by_cases heq : i = s.stateCount
    · simp [heq] at hi
    · simpa [heq] using h.cancelled i (by simpa [heq] using hi)

theorem getOrAdd (h : Consistent s) {i : Nat} (hund : Undisturbed s (.getOrAdd i))
    (ht : Transition s (.getOrAdd i) s') : Consistent s' := by
  obtain ⟨hfree, hremoving⟩ := hund
  cases ht with
  | ignored hentry => exact absurd hfree hentry
  | added hi _ =>
    refine ⟨?_, h.cancelled, ?_, ?_, h.outcome, ?_, ?_, ?_, h.fresh⟩
    · intro j hj
      rcases List.mem_append.1 hj with hold | hnew
      · exact h.registered j hold
      · rw [List.mem_singleton.1 hnew]
        exact hi
    · intro k j hj
      by_cases hk : k = (s.states i).key
      · subst hk
        cases (by simpa using hj : i = j)
        exact ⟨rfl, by simp⟩
      · obtain ⟨hkey, hmem⟩ := h.entry k j (by simpa [hk] using hj)
        exact ⟨hkey, List.mem_append_left _ hmem⟩
    · intro j hj hreply
      rcases List.mem_append.1 hj with hold | hnew
      · rcases h.awaited j hold hreply with hentry | hcomplete
        · have hk : (s.states j).key ≠ (s.states i).key := by
            intro heq
            rw [heq, hfree] at hentry
            cases hentry
          exact .inl (by simpa [hk] using hentry)
        · exact .inr hcomplete
      · rw [List.mem_singleton.1 hnew]
        exact .inl (by simp)
    · intro r j hj
      obtain ⟨hkey, hmem⟩ := h.held r j hj
      exact ⟨hkey, List.mem_append_left _ hmem⟩
    · intro r j hj j' hj'
      obtain ⟨hmem, honly⟩ := h.earlier r j hj j' hj'
      exact ⟨List.mem_append_left _ hmem, honly⟩
    · intro r j hj j' hj'
      have hpoint : (s.replies r).point = .tryRemove j := hj
      have hk := hremoving r (h.lt_of_point (by simp [hpoint])) (by rw [hpoint]; rfl)
      exact h.only r j hj j' (by simpa [hk] using hj')

/-- The state of a call changes, but neither its ids nor, if it is completed, its task. -/
theorem setState (h : Consistent s) {i : Nat} {state : MessageState ε ρ}
    (hkey : state.key = (s.states i).key)
    (hpending : state.reply = .pending → (s.states i).reply = .pending)
    (hcancelled : state.token ≠ .live → state.reply ≠ .pending) :
    Consistent (s.setState i state) := by
  refine h.of_evolves (evolves_setState hkey hpending) rfl rfl rfl rfl ?_
  intro j hj
  by_cases heq : j = i
  · subst heq
    simpa using hcancelled (by simpa using hj)
  · simpa [heq] using h.cancelled j (by simpa [heq] using hj)

theorem trySetCanceled (h : Consistent s) {i : Nat}
    (ht : Transition s (.trySetCanceled i) s') : Consistent s' := by
  cases ht
  have hcanceled : (TaskStatus.canceled : TaskStatus ε ρ).IsCompleted := nofun
  exact h.setState rfl (pending_of_trySet hcanceled)
    fun _ => TaskStatus.isCompleted_trySet hcanceled

theorem cancelTryRemove (h : Consistent s) {i : Nat} (hund : Undisturbed s (.cancelTryRemove i))
    (ht : Transition s (.cancelTryRemove i) s') : Consistent s' := by
  cases ht with
  | cancelTryRemove htoken =>
    have hi : (s.states i).reply ≠ .pending := h.cancelled i (by simp [htoken])
    have htokened : Consistent (s.setState i { s.states i with token := .cancelled }) :=
      h.setState rfl id fun _ => hi
    refine htokened.tryRemove _ ?_
    intro j hj hreply
    rcases hund j hj with heq | hdone
    · subst heq
      exact absurd (by simpa using hreply) hi
    · by_cases heq : j = i
      · subst heq
        exact absurd (by simpa using hreply) hi
      · exact absurd (by simpa [heq] using hreply) hdone

theorem receive (h : Consistent s) {reply : Reply ε ρ} (ht : Transition s (.receive reply) s') :
    Consistent s' := by
  cases ht with
  | dropped => exact h
  | receive =>
    have hfresh := h.fresh s.replyCount (Nat.le_refl _)
    refine h.setReply _ _ _ ?_ ?_ ?_ ?_ (Nat.le_succ _) (.inl (Nat.lt_succ_self _))
    · intro _
      exact reply.isCompleted_outcome
    · rintro i (hi | hi) <;> cases hi
    · intro i hi
      cases hi
    · intro i hi
      rw [hfresh] at hi
      cases hi

/-- The pending calls that are registered under a key, when no `ConsumeReply` of this key is about
to complete one. -/
theorem entry_of_pending (h : Consistent s) {c : String}
    (hfree : ∀ k < s.replyCount, (s.replies k).point.isTrySet → (s.replies k).correlationId ≠ c)
    {i : Nat} (hi : i ∈ s.registrations) (hkey : (s.states i).key = c)
    (hreply : (s.states i).reply = .pending) : s.commandStateQueues c = some i := by
  rcases h.awaited i hi hreply with hentry | ⟨k, hk⟩
  · rwa [hkey] at hentry
  · have hsame := (h.held k i (.inr hk)).1
    have hlt := h.lt_of_point (by simp [hk] : (s.replies k).point ≠ .finished)
    exact absurd (hsame.symm.trans hkey) (hfree k hlt (by rw [hk]; rfl))

theorem tryGetValue (h : Consistent s) {k : Nat} (hund : Undisturbed s (.tryGetValue k))
    (ht : Transition s (.tryGetValue k) s') : Consistent s' := by
  cases ht with
  | missed hpoint _ =>
    refine h.setReply k _ s.replyCount (absurd rfl) ?_ nofun ?_ (Nat.le_refl _) (.inr rfl)
    · rintro i (hi | hi) <;> cases hi
    · intro i hi
      rw [hpoint] at hi
      cases hi
  | @found _ i hpoint hentry =>
    have hcompleted := h.outcome k (by simp [hpoint])
    have hlt : k < s.replyCount := h.lt_of_point (by simp [hpoint])
    refine h.setReply k _ s.replyCount (fun _ => hcompleted) ?_ ?_ ?_ (Nat.le_refl _) (.inl hlt)
    · rintro j (hj | hj)
      · cases hj
        obtain ⟨hkey, hmem⟩ := h.entry _ _ hentry
        refine ⟨hkey, hmem, ?_⟩
        intro j hj
        refine ⟨hj, ?_⟩
        intro hkey' hreply
        exact Option.some.inj ((h.entry_of_pending hund hj hkey' hreply).symm.trans hentry)
      · cases hj
    · intro j hj j' hj'
      cases hj
      exact Option.some.inj (hj'.symm.trans hentry)
    · intro j hj
      rw [hpoint] at hj
      cases hj

theorem replyTryRemove (h : Consistent s) {k : Nat}
    (ht : Transition s (.replyTryRemove k) s') : Consistent s' := by
  cases ht with
  | @replyTryRemove _ i hpoint =>
    have hholds : Holds (s.replies k) i := .inl hpoint
    have hlt : k < s.replyCount := h.lt_of_point (by simp [hpoint])
    have hmoved : Consistent (s.setPoint k (.trySet i)) := by
      refine h.setReply k _ s.replyCount (fun _ => h.outcome k (by simp [hpoint])) ?_ nofun ?_
        (Nat.le_refl _) (.inl hlt)
      · rintro j (hj | hj)
        · cases hj
        · cases hj
          obtain ⟨hkey, hmem⟩ := h.held k i hholds
          exact ⟨hkey, hmem, h.earlier k i hholds⟩
      · intro j hj
        rw [hpoint] at hj
        cases hj
    refine hmoved.tryRemove _ ?_
    intro j hj _
    refine ⟨k, ?_⟩
    rw [h.only k i hpoint j hj]
    simp

theorem trySetReply (h : Consistent s) {k : Nat} (ht : Transition s (.trySetReply k) s') :
    Consistent s' := by
  cases ht with
  | @trySetReply _ i hpoint =>
    have hcompleted := h.outcome k (by simp [hpoint])
    have hset : ((s.states i).reply.trySet (s.replies k).outcome).IsCompleted :=
      TaskStatus.isCompleted_trySet hcompleted
    have hdone : Consistent (s.setState i
        { s.states i with reply := (s.states i).reply.trySet (s.replies k).outcome }) :=
      h.setState rfl (pending_of_trySet hcompleted) fun _ => hset
    refine hdone.setReply k _ s.replyCount (absurd rfl) ?_ nofun ?_ (Nat.le_refl _) (.inr rfl)
    · rintro j (hj | hj) <;> cases hj
    · intro j hj hreply
      cases ReplyPoint.trySet.inj (hpoint.symm.trans hj)
      exact absurd (by simpa using hreply) hset

theorem step (h : Consistent s) {a : Action ε ρ} (hund : Undisturbed s a)
    (ht : Transition s a s') : Consistent s' := by
  cases a with
  | build messageID sagaId => exact h.build ht
  | getOrAdd i => exact h.getOrAdd hund ht
  | trySetCanceled i => exact h.trySetCanceled ht
  | cancelTryRemove i => exact h.cancelTryRemove hund ht
  | receive reply => exact h.receive ht
  | tryGetValue k => exact h.tryGetValue hund ht
  | replyTryRemove k => exact h.replyTryRemove ht
  | trySetReply k => exact h.trySetReply ht

end Consistent

/-! ## Delivery -/

/-- An operation that leaves the unfinished calls of `ConsumeReply` where they are ends none. -/
theorem Answers.of_replies (h : ∀ k, (s.replies k).point ≠ .finished →
    (s'.replies k).point = (s.replies k).point) : Answers s s' := by
  intro k hk hfinished
  exact absurd ((h k hk).symm.trans hfinished) hk

/-- An operation of one call of `ConsumeReply` ends no other one. -/
theorem Answers.of_update {k : Nat} {r : ConsumeReply ε ρ}
    (hreplies : s'.replies = Function.update s.replies k r)
    (h : r.point = .finished → ∀ i ∈ r.earlier, (s.states i).key = (s.replies k).correlationId →
      (s.states i).reply = .pending → (s'.states i).reply = (s.replies k).outcome) :
    Answers s s' := by
  intro k' hk' hfinished i hi
  rw [hreplies] at hfinished hi
  by_cases heq : k' = k
  · subst heq
    simp only [Function.update_self] at hfinished hi
    exact h hfinished i hi
  · simp only [Function.update_of_ne heq] at hfinished
    exact absurd hfinished hk'

theorem Consistent.answers (h : Consistent s) {a : Action ε ρ} (hund : Undisturbed s a)
    (ht : Transition s a s') : Answers s s' := by
  cases ht with
  | missed _ hentry =>
    refine Answers.of_update rfl ?_
    intro _ i hi hkey hreply
    -- a call that is registered and pending has an entry, and would have been found
    have hfound := h.entry_of_pending hund hi hkey hreply
    rw [hentry] at hfound
    cases hfound
  | found => exact Answers.of_update rfl nofun
  | replyTryRemove => exact Answers.of_update rfl nofun
  | @trySetReply k i hpoint =>
    refine Answers.of_update rfl ?_
    intro _ j hj hkey hreply
    cases (h.earlier k i (.inr hpoint) j hj).2 hkey hreply
    simp [hreply]
  | receive =>
    refine Answers.of_replies ?_
    intro k hk
    simp [Nat.ne_of_lt (h.lt_of_point hk)]
  | _ => exact Answers.of_replies fun _ _ => rfl

/-- A cancellation leaves the other calls their entries. -/
theorem awaits_of_cancels {a : Action ε ρ} (hund : Undisturbed s a) (ht : Transition s a s')
    {i j : Nat} (ha : Cancels i a) (hji : j ≠ i) (hj : Awaits s j) : Awaits s' j := by
  obtain ⟨hreply, hentry⟩ := hj
  rcases ha with rfl | rfl
  · cases ht
    exact ⟨by simpa [hji] using hreply, by simpa [hji] using hentry⟩
  · cases ht
    have hkey : (s.states j).key ≠ (s.states i).messageID := by
      intro heq
      rcases hund j (heq ▸ hentry) with hsame | hdone
      · exact hji hsame
      · exact hdone hreply
    exact ⟨by simpa [hji] using hreply, by simpa [hji, hkey] using hentry⟩

/-- In a run in which no operation meets the entry of another call, every reply that has been
processed was delivered, and no cancellation disturbs another call. -/
theorem delivers_of_undisturbed {actions : List (Action ε ρ)}
    (h : Along step Undisturbed State.init actions) : Along step Delivers State.init actions := by
  refine Along.imp Consistent ?_ ?_ .init h
  · intro s a s' hs hund hstep
    exact hs.step hund (Transition.of_step hstep)
  · intro s a hs hund s' hstep
    have ht := Transition.of_step hstep
    refine ⟨hs.answers hund ht, ?_⟩
    intro i ha j hji hj
    exact awaits_of_cancels hund ht ha hji hj

/-- The reply to a command. -/
def sampleReply (correlationId : String) : Reply Unit Unit := ⟨none, some correlationId, .ok ()⟩

/-- A command is answered while a saga is started and cancelled. -/
theorem delivers_to_two_calls :
    Along step Delivers (State.init : State Unit Unit)
      [.build "c" none, .getOrAdd 0, .build "d" (some "s"), .receive (sampleReply "c"), .getOrAdd 1,
        .tryGetValue 0, .trySetCanceled 1, .replyTryRemove 0, .cancelTryRemove 1, .trySetReply 0] :=
  delivers_of_undisturbed (by decide)

/-- Of two calls with one id only the first one gets the reply; and a saga that is cancelled takes
the entry of a call that sends the same command. -/
theorem not_delivered_to_second_call :
    ¬Along step Delivers (State.init : State Unit Unit)
        [.build "c" none, .getOrAdd 0, .build "c" none, .getOrAdd 1, .receive (sampleReply "c"),
          .tryGetValue 0, .replyTryRemove 0, .trySetReply 0] ∧
      ¬Along step Delivers (State.init : State Unit Unit)
        [.build "c" (some "s"), .getOrAdd 0, .build "c" none, .getOrAdd 1, .trySetCanceled 0,
          .cancelTryRemove 0] := by
  refine ⟨?_, ?_⟩
  · intro h
    have hlast := (((((((h.2 _ rfl).2 _ rfl).2 _ rfl).2 _ rfl).2 _ rfl).2 _ rfl).2 _ rfl).1 _ rfl
    have hsecond := hlast.1 0 (by decide) rfl 1 (by decide) rfl rfl
    cases hsecond
  · intro h
    have hlast := (((((h.2 _ rfl).2 _ rfl).2 _ rfl).2 _ rfl).2 _ rfl).1 _ rfl
    have hentry := (hlast.2 0 (.inr rfl) 1 (by decide) ⟨rfl, rfl⟩).2
    cases hentry

end IFramework.Commands.CommandBus
