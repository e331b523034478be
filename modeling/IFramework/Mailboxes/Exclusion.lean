import IFramework.Mailboxes.Detached

/-!
# Mutual exclusion of the messages of one key

The handling flag keeps the messages of one `Mailbox` object apart, but the exclusion is meant for
a key, and the object of a key is replaced. `exclusion_of_drained_removals` shows that the removal
of a mailbox that still has a message in progress is the only way to break the exclusion.
-/

namespace IFramework.Mailboxes

open Machine

variable {V E : Type} {batchCount : Nat} {s s' : State V E} {a : Action V E}

/-- The task of the message has been started and has not finished. -/
def InProgress (s : State V E) (m : MailboxMessage) : Prop :=
  m ∈ s.history.started.map Prod.snd ∧ m ∉ s.history.finished.map Prod.fst

instance (s : State V E) : DecidablePred (InProgress s) :=
  fun _ => inferInstanceAs (Decidable (_ ∧ _))

/-- At most one message of each key is in progress. -/
def MutualExclusion (s : State V E) : Prop :=
  ∀ m m', InProgress s m → InProgress s m' → m.key = m'.key → m = m'

/-- Two messages of one key that are both in progress are awaited by loops of the mailbox that is
registered under the key; only one loop of a mailbox is active. -/
theorem MutualExclusion.of_detachedIdle (hwf : WellFormed s)
    (h : DetachedIdle RunPoint.Unfinished s) :
    MutualExclusion s := by
  have hawait : ∀ m, InProgress s m → ∃ r, (s.runs r).point = .await m ∧
      s.mailboxDictionary m.key = some (s.runs r).mailbox := by
    rintro m ⟨hmem, hfinished⟩
    obtain ⟨⟨b, _⟩, hstarted, rfl⟩ := List.mem_map.1 hmem
    obtain ⟨r, rfl, hr⟩ := hwf.held.awaited hstarted
      (fun o ho => hfinished (List.mem_map_of_mem ho))
    have hkey := hwf.flow.key_of_mem_dequeued (hwf.held.started _ _ hstarted)
    exact ⟨r, hr, hkey ▸ h.registered .self hwf (by rw [hr]; trivial)⟩
  intro m m' hm hm' hkey
  obtain ⟨r, hr, hreg⟩ := hawait m hm
  obtain ⟨q, hq, hreg'⟩ := hawait m' hm'
  have hbox : (s.runs r).mailbox = (s.runs q).mailbox := by
    rw [hkey, hreg'] at hreg
    exact (Option.some.inj hreg).symm
  have hrq : r = q := by
    apply hwf.handling.unique r q _ _ hbox
    · simp [hr, RunPoint.Active]
    · simp [hq, RunPoint.Active]
  subst hrq
  rw [hr] at hq
  cases hq
  rfl

/-- In every run in which each `TryRemove` finds the mailbox registered under the key drained, with
nothing queued and no message about to be started or in progress, at most one message of each key
is in progress in the state reached. -/
theorem exclusion_of_drained_removals {as : List (Action V E)}
    (halong : Along (step batchCount) (RemovesIdle RunPoint.Unfinished) State.init as)
    (hrun : run (step batchCount) State.init as = some s) : MutualExclusion s := by
  obtain ⟨hwf, hdetached⟩ := DetachedIdle.of_along .self halong hrun
  exact .of_detachedIdle hwf hdetached

/-- Two messages of one key: the mailbox of the first is removed when it is drained, and the second
is in progress in a new one. -/
theorem exclusion_of_drained_removals_of_two_messages :
    ∃ s, run (step 100) (State.init : State Nat String)
      [.process (some "k") false true, .command, .command, .command, .command, .run 0,
        .startSync 0 (.result 0), .run 0, .run 0, .run 0, .run 0, .run 0, .command, .command,
        .command, .process (some "k") false true, .command, .command, .command, .command, .run 1,
        .startAsync 1] = some s ∧
      InProgress s ⟨1, "k", false, true⟩ ∧ MutualExclusion s := by
  refine ⟨_, rfl, by decide, ?_⟩
  have hrun : run (step 100) (State.init : State Nat String)
      [.process (some "k") false true, .command, .command, .command, .command, .run 0,
        .startSync 0 (.result 0), .run 0, .run 0, .run 0, .run 0, .run 0, .command, .command,
        .command, .process (some "k") false true, .command, .command, .command, .command, .run 1,
        .startAsync 1] = some _ := rfl
  exact exclusion_of_drained_removals (by decide +kernel) hrun

/-- The second message is in progress in the mailbox when the command that follows the first one
removes the mailbox; the third message is then started in a mailbox of its own. -/
theorem exclusion_broken_by_removal :
    ∃ s, run (step 100) (State.init : State Nat String)
      [.process (some "k") false true, .command, .command, .command, .command, .run 0,
        .startAsync 0, .complete 0 (.result 0), .run 0, .run 0, .run 0, .run 0,
        .process (some "k") false true, .command, .command, .command, .command, .run 1,
        .startAsync 1, .run 0, .command, .command, .command,
        .process (some "k") false true, .command, .command, .command, .command, .run 2,
        .startAsync 2] = some s ∧
      ¬MutualExclusion s := by
  refine ⟨_, rfl, ?_⟩
  intro h
  have heq := h ⟨1, "k", false, true⟩ ⟨2, "k", false, true⟩ (by decide) (by decide) rfl
  simp at heq

end IFramework.Mailboxes
