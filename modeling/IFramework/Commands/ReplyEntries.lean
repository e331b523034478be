import IFramework.Commands.CommandBus

/-!
# Whether an entry is removed with its reply

Here a call of the bus, a reply and a cancellation are atomic: each is the list of its operations
(`actions`), done without interruption. With distinct ids every reply that completes a task
removes its entry, and so does the cancellation of a call of `SendAsync`. What leaves a dead entry
behind is the cancellation of a saga, whose entry stands under another id, and a call whose token
has been cancelled before, which adds its entry when its callback is over
(`no_dead_entries_iff`).
-/

namespace IFramework.Commands.CommandBus

open Machine

variable {ε ρ : Type}

/-! ## Atomic operations -/

/-- The calls and events of a bus; `cancelled` says whether the token of the call has been cancelled
before. -/
inductive Operation (ε ρ : Type) where
  | sendAsync (messageID : String) (cancelled : Bool)
  | startSaga (messageID sagaId : String) (cancelled : Bool)
  | consumeReply (reply : Reply ε ρ)
  | cancel (i : Nat)

/-- The operations of `OnReplyCancel`. -/
def onReplyCancel (i : Nat) : List (Action ε ρ) := [.trySetCanceled i, .cancelTryRemove i]

/-- The operations of a call: none when `WrapCommand` throws, and the callback of a token that has
been cancelled runs when it is registered, before `GetOrAdd`. -/
def call (s : State ε ρ) (messageID : String) (sagaId : Option String) (cancelled : Bool) :
    List (Action ε ρ) :=
  if messageID = "" then []
  else
    .build messageID sagaId ::
      ((if cancelled then onReplyCancel s.stateCount else []) ++ [.getOrAdd s.stateCount])

/-- The operations in order. -/
def actions (s : State ε ρ) : Operation ε ρ → List (Action ε ρ)
  | .sendAsync messageID cancelled => call s messageID none cancelled
  | .startSaga messageID sagaId cancelled => call s messageID (some sagaId) cancelled
  | .consumeReply reply =>
    match reply.key with
    | none => [.receive reply]
    | some correlationId =>
      if s.commandStateQueues correlationId = none then
        [.receive reply, .tryGetValue s.replyCount]
      else
        [.receive reply, .tryGetValue s.replyCount, .replyTryRemove s.replyCount,
          .trySetReply s.replyCount]
  | .cancel i => onReplyCancel i

/-- One operation without interruption. -/
def atomicStep (s : State ε ρ) (operation : Operation ε ρ) : Option (State ε ρ) :=
  run step s (actions s operation)

/-! ## The property and the condition -/

/-- Every entry belongs to a call that is pending. -/
def NoDeadEntries (s : State ε ρ) : Prop :=
  ∀ k i, s.commandStateQueues k = some i → (s.states i).reply = .pending

/-- The id of the command or of the saga of a call. -/
def MessageState.Uses (state : MessageState ε ρ) (id : String) : Prop :=
  state.messageID = id ∨ state.sagaId = some id

instance (state : MessageState ε ρ) (id : String) : Decidable (state.Uses id) :=
  inferInstanceAs (Decidable (_ ∨ _))

/-- A call uses ids that no other call uses, and its two ids differ. -/
def FreshCall (s : State ε ρ) (messageID : String) (sagaId : Option String) : Prop :=
  sagaId ≠ some messageID ∧
    ∀ i < s.stateCount, ¬(s.states i).Uses messageID ∧ ∀ id ∈ sagaId, ¬(s.states i).Uses id

instance (s : State ε ρ) (messageID : String) (sagaId : Option String) :
    Decidable (FreshCall s messageID sagaId) :=
  inferInstanceAs (Decidable (_ ∧ ∀ i < s.stateCount, _ ∧ ∀ id ∈ sagaId, _))

/-- The ids of commands and sagas are distinct. -/
def FreshIds (s : State ε ρ) : Operation ε ρ → Prop
  | .sendAsync messageID _ => FreshCall s messageID none
  | .startSaga messageID sagaId _ => FreshCall s messageID (some sagaId)
  | _ => True

instance (s : State ε ρ) (operation : Operation ε ρ) : Decidable (FreshIds s operation) :=
  match operation with
  | .sendAsync messageID _ => inferInstanceAs (Decidable (FreshCall s messageID none))
  | .startSaga messageID sagaId _ =>
    inferInstanceAs (Decidable (FreshCall s messageID (some sagaId)))
  | .consumeReply _ => isTrue trivial
  | .cancel _ => isTrue trivial

/-- A call that does not throw is made with a token that has not been cancelled, and no saga is
cancelled while its reply is pending. -/
def KeepsEntries (s : State ε ρ) : Operation ε ρ → Prop
  | .sendAsync messageID cancelled => messageID ≠ "" → cancelled = false
  | .startSaga messageID _ cancelled => messageID ≠ "" → cancelled = false
  | .consumeReply _ => True
  | .cancel i => (s.states i).sagaId ≠ none → (s.states i).reply.IsCompleted

instance (s : State ε ρ) (operation : Operation ε ρ) : Decidable (KeepsEntries s operation) :=
  match operation with
  | .sendAsync _ _ => inferInstanceAs (Decidable (_ → _))
  | .startSaga _ _ _ => inferInstanceAs (Decidable (_ → _))
  | .consumeReply _ => isTrue trivial
  | .cancel _ => inferInstanceAs (Decidable (_ → _))

/-! ## What the operations do -/

section Operations

variable {s s' : State ε ρ}

/-- The bus after a call that adds its entry. -/
abbrev State.called (s : State ε ρ) (messageID : String) (sagaId : Option String) : State ε ρ :=
  { s with
    states := Function.update s.states s.stateCount ⟨messageID, sagaId, .live, .pending⟩
    stateCount := s.stateCount + 1
    commandStateQueues :=
      Function.update s.commandStateQueues (sagaId.getD messageID) (some s.stateCount)
    registrations := s.registrations ++ [s.stateCount] }

theorem call_of_empty (sagaId : Option String) (cancelled : Bool) :
    run step s (call s "" sagaId cancelled) = some s := rfl

theorem call_eq {messageID : String} {sagaId : Option String} (hid : messageID ≠ "")
    (hregistrations : s.stateCount ∉ s.registrations)
    (hfree : s.commandStateQueues (sagaId.getD messageID) = none) :
    run step s (call s messageID sagaId false) = some (s.called messageID sagaId) := by
  simp [call, run, step, hid, hregistrations, hfree, MessageState.key]

/-- A call whose token has been cancelled adds an entry that is dead. -/
theorem call_of_cancelled {messageID : String} {sagaId : Option String} (hid : messageID ≠ "")
    (hregistrations : s.stateCount ∉ s.registrations)
    (hfree : s.commandStateQueues (sagaId.getD messageID) = none) :
    ∃ s', run step s (call s messageID sagaId true) = some s' ∧ ¬NoDeadEntries s' := by
  have hfree' : Function.update s.commandStateQueues messageID none
      (sagaId.getD messageID) = none := by
    by_cases hkey : sagaId.getD messageID = messageID
    · simp [hkey]
    · simpa [hkey] using hfree
  have hrun : run step s (call s messageID sagaId true) =
      some { s with
        states := Function.update s.states s.stateCount ⟨messageID, sagaId, .cancelled, .canceled⟩
        stateCount := s.stateCount + 1
        commandStateQueues :=
          Function.update (Function.update s.commandStateQueues messageID none)
            (sagaId.getD messageID) (some s.stateCount)
        registrations := s.registrations ++ [s.stateCount] } := by
    simp [call, onReplyCancel, run, step, hid, hregistrations, hfree', MessageState.key]
  refine ⟨_, hrun, ?_⟩
  intro hnone
  have hpending := hnone (sagaId.getD messageID) s.stateCount (by simp)
  simp at hpending

theorem onReplyCancel_eq {i : Nat} (hlive : (s.states i).token = .live) :
    run step s (onReplyCancel i) =
      some { s with
        states := Function.update s.states i
          { s.states i with token := .cancelled, reply := (s.states i).reply.trySet .canceled }
        commandStateQueues :=
          Function.update s.commandStateQueues (s.states i).messageID none } := by
  simp [onReplyCancel, run, step, hlive]

theorem onReplyCancel_of_not_live {i : Nat} (hlive : (s.states i).token ≠ .live) :
    run step s (onReplyCancel i) = none := by
  simp [onReplyCancel, run, step, hlive]

theorem consumeReply_cases {reply : Reply ε ρ}
    (hstep : atomicStep s (.consumeReply reply) = some s') :
    s'.stateCount = s.stateCount ∧ s'.registrations = s.registrations ∧
      ((s'.states = s.states ∧ s'.commandStateQueues = s.commandStateQueues) ∨
        ∃ c i, s.commandStateQueues c = some i ∧
          s'.states = Function.update s.states i
            { s.states i with reply := (s.states i).reply.trySet reply.outcome } ∧
          s'.commandStateQueues = Function.update s.commandStateQueues c none) := by
  cases hkey : reply.key with
  | none =>
    simp only [atomicStep, actions, hkey, run, step, Option.bind_some, Option.some.injEq] at hstep
    subst hstep
    exact ⟨rfl, rfl, .inl ⟨rfl, rfl⟩⟩
  | some c =>
    cases hentry : s.commandStateQueues c with
    | none =>
      have hrun : atomicStep s (.consumeReply reply) =
          some { s with
            replies := Function.update s.replies s.replyCount
              ⟨c, reply.outcome, .finished, s.registrations⟩
            replyCount := s.replyCount + 1 } := by
        simp [atomicStep, actions, hkey, hentry, run, step]
      cases hrun.symm.trans hstep
      exact ⟨rfl, rfl, .inl ⟨rfl, rfl⟩⟩
    | some i =>
      have hrun : atomicStep s (.consumeReply reply) =
          some { s with
            states := Function.update s.states i
              { s.states i with reply := (s.states i).reply.trySet reply.outcome }
            replies := Function.update s.replies s.replyCount
              ⟨c, reply.outcome, .finished, s.registrations⟩
            replyCount := s.replyCount + 1
            commandStateQueues := Function.update s.commandStateQueues c none } := by
        simp [atomicStep, actions, hkey, hentry, run, step]
      cases hrun.symm.trans hstep
      exact ⟨rfl, rfl, .inr ⟨c, i, hentry, rfl, rfl⟩⟩

end Operations

/-! ## The invariant -/

/-- The entries are those of the pending calls, and no two calls share an id. -/
structure Tidy (s : State ε ρ) : Prop where
  noDead : NoDeadEntries s
  entry : ∀ k i, s.commandStateQueues k = some i → (s.states i).key = k ∧ i < s.stateCount
  awaited : ∀ i, (s.states i).reply = .pending →
    s.commandStateQueues (s.states i).key = some i
  uses : ∀ i j id, i < s.stateCount → j < s.stateCount → (s.states i).Uses id →
    (s.states j).Uses id → i = j
  sagaId : ∀ i < s.stateCount, (s.states i).sagaId ≠ some (s.states i).messageID
  built : ∀ i, (s.states i).token = .live → i < s.stateCount
  cancelled : ∀ i, (s.states i).token ≠ .live → (s.states i).reply.IsCompleted
  registrations : ∀ i ∈ s.registrations, i < s.stateCount

theorem MessageState.uses_key (state : MessageState ε ρ) : state.Uses state.key := by
  unfold Uses key
  cases hsaga : state.sagaId with
  | none => exact .inl rfl
  | some sagaId => exact .inr rfl

namespace Tidy

variable {s s' : State ε ρ}

theorem init : Tidy (State.init : State ε ρ) where
  noDead := by simp [NoDeadEntries, State.init]
  entry := by simp [State.init]
  awaited := by simp [State.init]
  uses := by simp [State.init]
  sagaId := by simp [State.init]
  built := by simp [State.init]
  cancelled := by simp [State.init, TaskStatus.IsCompleted]
  registrations := by simp [State.init]

theorem entry_of_fresh (h : Tidy s) {id : String}
    (hid : ∀ i < s.stateCount, ¬(s.states i).Uses id) : s.commandStateQueues id = none := by
  cases hentry : s.commandStateQueues id with
  | none => rfl
  | some i =>
    obtain ⟨hkey, hi⟩ := h.entry id i hentry
    exact absurd (hkey ▸ (s.states i).uses_key) (hid i hi)

theorem stateCount_not_mem (h : Tidy s) : s.stateCount ∉ s.registrations :=
  fun hmem => Nat.lt_irrefl _ (h.registrations _ hmem)

theorem entry_of_freshCall (h : Tidy s) {messageID : String} {sagaId : Option String}
    (hfresh : FreshCall s messageID sagaId) :
    s.commandStateQueues (sagaId.getD messageID) = none := by
  cases sagaId with
  | none => exact h.entry_of_fresh fun i hi => (hfresh.2 i hi).1
  | some id => exact h.entry_of_fresh fun i hi => (hfresh.2 i hi).2 id rfl

theorem call (h : Tidy s) {messageID : String} {sagaId : Option String}
    (hfresh : FreshCall s messageID sagaId) :
    Tidy (s.called messageID sagaId) := by
  have hne : ∀ i, i < s.stateCount → i ≠ s.stateCount := fun i hi => Nat.ne_of_lt hi
  have hold : ∀ i, i < s.stateCount + 1 → i ≠ s.stateCount → i < s.stateCount := by omega
  have hfree := h.entry_of_freshCall hfresh
  have huses : ∀ id,
      MessageState.Uses (⟨messageID, sagaId, .live, .pending⟩ : MessageState ε ρ) id →
        ∀ i < s.stateCount, ¬(s.states i).Uses id := by
    rintro id (hid | hid) i hi
    · exact hid ▸ (hfresh.2 i hi).1
    · exact (hfresh.2 i hi).2 id hid
  refine ⟨?_, ?_, ?_, ?_, ?_, ?_, ?_, ?_⟩
  · intro k i hentry
    by_cases hk : k = sagaId.getD messageID
    · subst hk
      cases (by simpa using hentry : s.stateCount = i)
      simp
    · have hentry : s.commandStateQueues k = some i := by simpa [hk] using hentry
      simpa [hne i (h.entry k i hentry).2] using h.noDead k i hentry
  · intro k i hentry
    by_cases hk : k = sagaId.getD messageID
    · subst hk
      cases (by simpa using hentry : s.stateCount = i)
      exact ⟨by simp [MessageState.key], Nat.lt_succ_self _⟩
    · have hentry : s.commandStateQueues k = some i := by simpa [hk] using hentry
      obtain ⟨hkey, hi⟩ := h.entry k i hentry
      exact ⟨by simpa [hne i hi] using hkey, Nat.lt_succ_of_lt hi⟩
  · intro i hreply
    by_cases hi : i = s.stateCount
    · subst hi
      simp [MessageState.key]
    · have hentry := h.awaited i (by simpa [hi] using hreply)
      have hk : (s.states i).key ≠ sagaId.getD messageID := by
        intro heq
        rw [heq, hfree] at hentry
        cases hentry
      simpa [hi, hk] using hentry
  · intro i j id hi hj hui huj
    by_cases hin : i = s.stateCount
    · by_cases hjn : j = s.stateCount
      · exact hin.trans hjn.symm
      · subst hin
        exact absurd (by simpa [hjn] using huj) (huses id (by simpa using hui) j (hold j hj hjn))
    · by_cases hjn : j = s.stateCount
      · subst hjn
        exact absurd (by simpa [hin] using hui) (huses id (by simpa using huj) i (hold i hi hin))
      · exact h.uses i j id (hold i hi hin) (hold j hj hjn) (by simpa [hin] using hui)
          (by simpa [hjn] using huj)
  · intro i hi
    by_cases hin : i = s.stateCount
    · subst hin
      simpa using hfresh.1
    · simpa [hin] using h.sagaId i (hold i hi hin)
  · intro i hlive
    by_cases hin : i = s.stateCount
    · subst hin
      exact Nat.lt_succ_self _
    · exact Nat.lt_succ_of_lt (h.built i (by simpa [hin] using hlive))
  · intro i hlive
    by_cases hin : i = s.stateCount
    · simp [hin] at hlive
    · simpa [hin] using h.cancelled i (by simpa [hin] using hlive)
  · intro i hi
    rcases List.mem_append.1 hi with hmem | hnew
    · exact Nat.lt_succ_of_lt (h.registrations i hmem)
    · rw [List.mem_singleton.1 hnew]
      exact Nat.lt_succ_self _

/-- A call is completed, and the entry of its key is removed with it, if it is there. -/
theorem settle (h : Tidy s) {i : Nat} {k : String} {state : MessageState ε ρ}
    (hstates : s'.states = Function.update s.states i state)
    (htable : s'.commandStateQueues = Function.update s.commandStateQueues k none)
    (hcount : s'.stateCount = s.stateCount) (hregistrations : s'.registrations = s.registrations)
    (hstate : state.messageID = (s.states i).messageID ∧ state.sagaId = (s.states i).sagaId)
    (htoken : state.token = .live → (s.states i).token = .live)
    (hcompleted : state.reply.IsCompleted)
    (hown : ∀ j, s.commandStateQueues k = some j → j = i)
    (hkey : s.commandStateQueues (s.states i).key = some i → (s.states i).key = k) : Tidy s' := by
  have hkeys : ∀ j, (s'.states j).key = (s.states j).key := by
    intro j
    by_cases hji : j = i
    · subst hji
      simp [hstates, MessageState.key, hstate.1, hstate.2]
    · simp [hstates, hji]
  have hids : ∀ j, (s'.states j).messageID = (s.states j).messageID ∧
      (s'.states j).sagaId = (s.states j).sagaId := by
    intro j
    by_cases hji : j = i
    · subst hji
      simpa [hstates] using hstate
    · simp [hstates, hji]
  have huses : ∀ j id, (s'.states j).Uses id ↔ (s.states j).Uses id := by
    intro j id
    rw [MessageState.Uses, MessageState.Uses, (hids j).1, (hids j).2]
  have hsub : ∀ {k' j}, s'.commandStateQueues k' = some j →
      k' ≠ k ∧ s.commandStateQueues k' = some j := by
    intro k' j hj
    by_cases hk : k' = k
    · simp [htable, hk] at hj
    · exact ⟨hk, by simpa [htable, hk] using hj⟩
  refine ⟨?_, ?_, ?_, ?_, ?_, ?_, ?_, ?_⟩
  · intro k' j hentry
    obtain ⟨hk, hold⟩ := hsub hentry
    have hji : j ≠ i := by
      rintro rfl
      have hkj := (h.entry k' j hold).1
      exact hk (hkj.symm.trans (hkey (hkj ▸ hold)))
    simpa [hstates, hji] using h.noDead k' j hold
  · intro k' j hentry
    obtain ⟨hkj, hj⟩ := h.entry k' j (hsub hentry).2
    exact ⟨(hkeys j).trans hkj, hcount ▸ hj⟩
  · intro j hreply
    have hji : j ≠ i := by
      rintro rfl
      exact hcompleted (by simpa [hstates] using hreply)
    have hentry := h.awaited j (by simpa [hstates, hji] using hreply)
    have hk : (s.states j).key ≠ k := fun heq => hji (hown j (heq ▸ hentry))
    rw [hkeys, htable]
    simpa [hk] using hentry
  · intro j j' id hj hj' huj huj'
    rw [hcount] at hj hj'
    exact h.uses j j' id hj hj' ((huses j id).1 huj) ((huses j' id).1 huj')
  · intro j hj
    rw [(hids j).1, (hids j).2]
    exact h.sagaId j (hcount ▸ hj)
  · intro j hlive
    rw [hcount]
    by_cases hji : j = i
    · subst hji
      exact h.built j (htoken (by simpa [hstates] using hlive))
    · exact h.built j (by simpa [hstates, hji] using hlive)
  · intro j hlive
    by_cases hji : j = i
    · subst hji
      simpa [hstates] using hcompleted
    · simpa [hstates, hji] using h.cancelled j (by simpa [hstates, hji] using hlive)
  · intro j hj
    rw [hregistrations] at hj
    rw [hcount]
    exact h.registrations j hj

theorem consumeReply (h : Tidy s) {reply : Reply ε ρ}
    (hstep : atomicStep s (.consumeReply reply) = some s') : Tidy s' := by
  obtain ⟨hcount, hregistrations, ⟨hstates, htable⟩ | ⟨c, i, hentry, hstates, htable⟩⟩ :=
    consumeReply_cases hstep
  · cases s
    cases s'
    simp only at hcount hregistrations hstates htable
    subst hcount hregistrations hstates htable
    exact ⟨h.noDead, h.entry, h.awaited, h.uses, h.sagaId, h.built, h.cancelled, h.registrations⟩
  · refine h.settle hstates htable hcount hregistrations ⟨rfl, rfl⟩ id
      (TaskStatus.isCompleted_trySet reply.isCompleted_outcome) ?_ ?_
    · intro j hj
      exact Option.some.inj (hj.symm.trans hentry)
    · intro _
      exact (h.entry c i hentry).1

/-- The entry under the id of a command belongs to the call of this command. -/
theorem eq_of_entry_messageID (h : Tidy s) {i j : Nat} (hi : i < s.stateCount)
    (hj : s.commandStateQueues (s.states i).messageID = some j) : j = i := by
  obtain ⟨hkey, hlt⟩ := h.entry _ j hj
  exact h.uses j i _ hlt hi (hkey ▸ (s.states j).uses_key) (.inl rfl)

/-- A cancellation of a call of `SendAsync`, or of one that has been completed. -/
theorem cancel (h : Tidy s) {i : Nat} (hkeeps : KeepsEntries s (.cancel i : Operation ε ρ))
    (hstep : atomicStep s (.cancel i) = some s') : Tidy s' := by
  by_cases hlive : (s.states i).token = .live
  · cases (onReplyCancel_eq hlive).symm.trans hstep
    refine h.settle rfl rfl rfl rfl ⟨rfl, rfl⟩ nofun (TaskStatus.isCompleted_trySet nofun) ?_ ?_
    · intro j hj
      exact h.eq_of_entry_messageID (h.built i hlive) hj
    · intro hentry
      have hsaga : (s.states i).sagaId = none := by
        by_contra hsaga
        exact hkeeps hsaga (h.noDead _ i hentry)
      rw [MessageState.key, hsaga]
      rfl
  · cases (onReplyCancel_of_not_live hlive).symm.trans hstep

/-- The cancellation of a saga that is pending leaves its entry. -/
theorem dead_of_cancel (h : Tidy s) {i : Nat}
    (hkeeps : ¬KeepsEntries s (.cancel i : Operation ε ρ)) :
    ∃ s', atomicStep s (.cancel i) = some s' ∧ ¬NoDeadEntries s' := by
  obtain ⟨hsaga, hreply⟩ := Classical.not_imp.1 hkeeps
  have hpending : (s.states i).reply = .pending := not_not.1 hreply
  have hlive : (s.states i).token = .live := by
    by_contra hlive
    exact h.cancelled i hlive hpending
  have hkey : (s.states i).key ≠ (s.states i).messageID := by
    obtain ⟨sagaId, hid⟩ := Option.ne_none_iff_exists'.1 hsaga
    have hdistinct := h.sagaId i (h.built i hlive)
    rw [hid] at hdistinct
    rw [MessageState.key, hid]
    exact fun heq => hdistinct (congrArg some heq)
  refine ⟨_, onReplyCancel_eq hlive, ?_⟩
  intro hnone
  have hdead := hnone (s.states i).key i (by simpa [hkey] using h.awaited i hpending)
  simp [hpending] at hdead

/-- A call that throws, or whose token has not been cancelled. -/
theorem call_step (h : Tidy s) {messageID : String} {sagaId : Option String} {cancelled : Bool}
    (hfresh : FreshCall s messageID sagaId) (hcancelled : messageID ≠ "" → cancelled = false)
    (hstep : run CommandBus.step s (CommandBus.call s messageID sagaId cancelled) = some s') :
    Tidy s' := by
  by_cases hid : messageID = ""
  · subst hid
    cases (call_of_empty sagaId cancelled).symm.trans hstep
    exact h
  · rw [hcancelled hid,
      call_eq hid h.stateCount_not_mem (h.entry_of_freshCall hfresh)] at hstep
    cases hstep
    exact h.call hfresh

theorem dead_of_call (h : Tidy s) {messageID : String} {sagaId : Option String} {cancelled : Bool}
    (hfresh : FreshCall s messageID sagaId)
    (hcancelled : ¬(messageID ≠ "" → cancelled = false)) :
    ∃ s', run CommandBus.step s (CommandBus.call s messageID sagaId cancelled) = some s' ∧
      ¬NoDeadEntries s' := by
  obtain ⟨hid, hcancelled⟩ := Classical.not_imp.1 hcancelled
  rw [Bool.not_eq_false] at hcancelled
  subst hcancelled
  exact call_of_cancelled hid h.stateCount_not_mem (h.entry_of_freshCall hfresh)

theorem step (h : Tidy s) {operation : Operation ε ρ} (hfresh : FreshIds s operation)
    (hkeeps : KeepsEntries s operation) (hstep : atomicStep s operation = some s') : Tidy s' := by
  cases operation with
  | sendAsync messageID cancelled => exact h.call_step hfresh hkeeps hstep
  | startSaga messageID sagaId cancelled => exact h.call_step hfresh hkeeps hstep
  | consumeReply reply => exact h.consumeReply hstep
  | cancel i => exact h.cancel hkeeps hstep

theorem dead (h : Tidy s) {operation : Operation ε ρ} (hfresh : FreshIds s operation)
    (hkeeps : ¬KeepsEntries s operation) :
    ∃ s', atomicStep s operation = some s' ∧ ¬NoDeadEntries s' := by
  cases operation with
  | sendAsync messageID cancelled => exact h.dead_of_call hfresh hkeeps
  | startSaga messageID sagaId cancelled => exact h.dead_of_call hfresh hkeeps
  | consumeReply reply => exact absurd trivial hkeeps
  | cancel i => exact h.dead_of_cancel hkeeps

end Tidy

/-- For calls with distinct ids, no state of a run has a dead entry exactly when no call is made
with a token that has been cancelled, and no saga is cancelled while its reply is pending. -/
theorem no_dead_entries_iff {operations : List (Operation ε ρ)}
    (hids : Along atomicStep FreshIds State.init operations) :
    Along atomicStep (fun s operation => ∀ s', atomicStep s operation = some s' → NoDeadEntries s')
        State.init operations ↔
      Along atomicStep KeepsEntries State.init operations := by
  have hiff : ∀ (s : State ε ρ) operation, Tidy s → FreshIds s operation →
      ((∀ s', atomicStep s operation = some s' → NoDeadEntries s') ↔
        KeepsEntries s operation) := by
    intro s operation h hfresh
    constructor
    · intro hnone
      by_contra hkeeps
      obtain ⟨s', hstep, hdead⟩ := h.dead hfresh hkeeps
      exact hdead (hnone s' hstep)
    · intro hkeeps s' hstep
      exact (h.step hfresh hkeeps hstep).noDead
  refine Along.congr Tidy ?_ hiff .init hids
  intro s operation s' h hfresh hnone hstep
  exact h.step hfresh ((hiff s operation h hfresh).1 hnone) hstep

/-- A saga gets its reply, and is cancelled when it has it; a command is cancelled. -/
theorem no_dead_entries_of_two_calls :
    Along atomicStep
      (fun s operation => ∀ s', atomicStep s operation = some s' → NoDeadEntries s')
      (State.init : State Unit Unit)
      [.startSaga "m" "s" false, .sendAsync "n" false,
        .consumeReply ⟨some ⟨some "s", none⟩, some "m", .ok ()⟩, .cancel 0, .cancel 1] :=
  (no_dead_entries_iff (by decide)).2 (by decide)

/-- The ids are distinct, but when the saga is cancelled its entry stays; and so does the entry of
a command that is sent with a token that has been cancelled. -/
theorem dead_entry_of_cancelled_saga :
    (Along atomicStep FreshIds (State.init : State Unit Unit)
        [.startSaga "m" "s" false, .cancel 0] ∧
      ¬Along atomicStep
        (fun s operation => ∀ s', atomicStep s operation = some s' → NoDeadEntries s')
        (State.init : State Unit Unit) [.startSaga "m" "s" false, .cancel 0]) ∧
    (Along atomicStep FreshIds (State.init : State Unit Unit) [.sendAsync "m" true] ∧
      ¬Along atomicStep
        (fun s operation => ∀ s', atomicStep s operation = some s' → NoDeadEntries s')
        (State.init : State Unit Unit) [.sendAsync "m" true]) := by
  refine ⟨⟨by decide, ?_⟩, ⟨by decide, ?_⟩⟩
  · intro h
    have hpending := (h.2 _ rfl).1 _ rfl "s" 0 rfl
    cases hpending
  · intro h
    have hpending := h.1 _ rfl "m" 0 rfl
    cases hpending

end IFramework.Commands.CommandBus
