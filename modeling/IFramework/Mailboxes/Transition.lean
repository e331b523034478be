import IFramework.Mailboxes.Basic

/-!
# What one step of the mailbox processor can do

`Transition` lists the ways in which a step can succeed, one constructor for each branch of the
step function, with the guard of the branch and the state it leads to. `Transition.of_step` is the
only place where the step function is unfolded; the invariants are proved by cases on it.
-/

namespace IFramework.Mailboxes

variable {V E : Type} {batchCount : Nat} {s s' : State V E} {a : Action V E}

/-- The state after the operation of one branch of the step function, with the branch's guard. -/
inductive Transition (batchCount : Nat) (s : State V E) : Action V E → State V E → Prop
  | processDirectly {key hasReturnValue resultAccessible}
      (hkey : isNullOrWhiteSpace key = true) :
      Transition batchCount s (.process key hasReturnValue resultAccessible) s
  | processAdd {k hasReturnValue resultAccessible}
      (hkey : isNullOrWhiteSpace (some k) = false) :
      Transition batchCount s (.process (some k) hasReturnValue resultAccessible)
        { s with
          commands :=
            s.commands ++
              [.processMessage ⟨s.history.added.length, k, hasReturnValue, resultAccessible⟩]
          history :=
            { s.history with
              added :=
                s.history.added ++
                  [⟨s.history.added.length, k, hasReturnValue, resultAccessible⟩] } }
  | takeProcess {m rest} (hpoint : s.commandPoint = .take)
      (hcommands : s.commands = .processMessage m :: rest) :
      Transition batchCount s .command
        { s with commands := rest, commandPoint := .getOrAdd m }
  | takeComplete {b rest} (hpoint : s.commandPoint = .take)
      (hcommands : s.commands = .completeMessage b :: rest) :
      Transition batchCount s .command
        { s with commands := rest, commandPoint := .count b }
  | getOrAddBlank {m} (hpoint : s.commandPoint = .getOrAdd m)
      (hkey : isNullOrWhiteSpace (some m.key) = true) :
      Transition batchCount s .command { s with commandPoint := .take }
  | getOrAddFound {m b} (hpoint : s.commandPoint = .getOrAdd m)
      (hbox : s.mailboxDictionary m.key = some b) :
      Transition batchCount s .command { s with commandPoint := .enqueue b m }
  | getOrAddNew {m} (hpoint : s.commandPoint = .getOrAdd m)
      (hbox : s.mailboxDictionary m.key = none) :
      Transition batchCount s .command
        { s with
          mailboxDictionary := Function.update s.mailboxDictionary m.key (some s.mailboxCount)
          mailboxes := Function.update s.mailboxes s.mailboxCount ⟨m.key, [], false⟩
          mailboxCount := s.mailboxCount + 1
          commandPoint := .enqueue s.mailboxCount m }
  | enqueue {b m} (hpoint : s.commandPoint = .enqueue b m) :
      Transition batchCount s .command
        { s.setQueue b ((s.mailboxes b).messageQueue ++ [m]) with
          commandPoint := .schedule b
          history := { s.history with enqueued := s.history.enqueued ++ [(b, m)] } }
  | scheduleBusy {b} (hpoint : s.commandPoint = .schedule b)
      (hflag : (s.mailboxes b).isHandlingMessage = true) :
      Transition batchCount s .command { s with commandPoint := .take }
  | scheduleRun {b} (hpoint : s.commandPoint = .schedule b)
      (hflag : (s.mailboxes b).isHandlingMessage = false) :
      Transition batchCount s .command
        { s.setHandling b true with
          runs := Function.update s.runs s.runCount ⟨b, 0, .loop, true⟩
          runCount := s.runCount + 1
          commandPoint := .running }
  | countZero {b} (hpoint : s.commandPoint = .count b)
      (hqueue : (s.mailboxes b).messageQueue = []) :
      Transition batchCount s .command { s with commandPoint := .tryRemove b }
  | countPositive {b} (hpoint : s.commandPoint = .count b)
      (hqueue : (s.mailboxes b).messageQueue ≠ []) :
      Transition batchCount s .command { s with commandPoint := .take }
  | tryRemove {b} (hpoint : s.commandPoint = .tryRemove b) :
      Transition batchCount s .command
        { s with
          mailboxDictionary := Function.update s.mailboxDictionary (s.mailboxes b).key none
          commandPoint := .take }
  | loopBreak {r} (hpoint : (s.runs r).point = .loop)
      (hbreak : ¬(s.runs r).processedCount < batchCount ∨
        (s.mailboxes (s.runs r).mailbox).messageQueue = []) :
      Transition batchCount s (.run r) (s.setPoint r .exchange)
  | loopDequeue {r m rest} (hpoint : (s.runs r).point = .loop)
      (hbatch : (s.runs r).processedCount < batchCount)
      (hqueue : (s.mailboxes (s.runs r).mailbox).messageQueue = m :: rest) :
      Transition batchCount s (.run r)
        { s.setQueue (s.runs r).mailbox rest with
          runs := Function.update s.runs r
            { s.runs r with
              processedCount := (s.runs r).processedCount + 1, point := .start m }
          history :=
            { s.history with dequeued := s.history.dequeued ++ [((s.runs r).mailbox, m)] } }
  | set {r m outcome} (hpoint : (s.runs r).point = .set m outcome) :
      Transition batchCount s (.run r)
        { s.setPoint r .loop with
          history :=
            { s.history with
              completions := s.history.completions ++ [(m, completionOf m outcome)] } }
  | exchange {r} (hpoint : (s.runs r).point = .exchange) :
      Transition batchCount s (.run r)
        ((s.setHandling (s.runs r).mailbox false).setPoint r .isEmpty)
  | isEmptyTrue {r} (hpoint : (s.runs r).point = .isEmpty)
      (hqueue : (s.mailboxes (s.runs r).mailbox).messageQueue = []) :
      Transition batchCount s (.run r) (s.setPoint r .onMessageEmpty)
  | isEmptyFalse {r} (hpoint : (s.runs r).point = .isEmpty)
      (hqueue : (s.mailboxes (s.runs r).mailbox).messageQueue ≠ []) :
      Transition batchCount s (.run r) (s.setPoint r .reschedule)
  | rescheduleBusy {r} (hpoint : (s.runs r).point = .reschedule)
      (hflag : (s.mailboxes (s.runs r).mailbox).isHandlingMessage = true) :
      Transition batchCount s (.run r) (s.release r .ended)
  | rescheduleRun {r} (hpoint : (s.runs r).point = .reschedule)
      (hflag : (s.mailboxes (s.runs r).mailbox).isHandlingMessage = false) :
      Transition batchCount s (.run r)
        { s.setHandling (s.runs r).mailbox true with
          runs := Function.update s.runs r
            { s.runs r with processedCount := 0, point := .loop } }
  | onMessageEmpty {r} (hpoint : (s.runs r).point = .onMessageEmpty) :
      Transition batchCount s (.run r)
        { s.release r .ended with
          commands := s.commands ++ [.completeMessage (s.runs r).mailbox] }
  | startSync {r m outcome} (hpoint : (s.runs r).point = .start m) :
      Transition batchCount s (.startSync r outcome)
        { s.setPoint r (.set m outcome) with
          history :=
            { s.history with
              started := s.history.started ++ [((s.runs r).mailbox, m)]
              finished := s.history.finished ++ [(m, outcome)] } }
  | startAsync {r m} (hpoint : (s.runs r).point = .start m) :
      Transition batchCount s (.startAsync r)
        { s.release r (.await m) with
          history :=
            { s.history with
              started := s.history.started ++ [((s.runs r).mailbox, m)] } }
  | complete {r m outcome} (hpoint : (s.runs r).point = .await m) :
      Transition batchCount s (.complete r outcome)
        { s.setPoint r (.set m outcome) with
          history := { s.history with finished := s.history.finished ++ [(m, outcome)] } }

theorem Transition.of_process {key : Option String} {hasReturnValue resultAccessible : Bool} :
    Transition batchCount s (.process key hasReturnValue resultAccessible)
      (process s key hasReturnValue resultAccessible) := by
  unfold process
  cases key with
  | none => exact .processDirectly rfl
  | some k =>
    cases hkey : isNullOrWhiteSpace (some k) with
    | true => simpa [hkey] using .processDirectly hkey
    | false => simpa [hkey] using .processAdd hkey

theorem Transition.of_commandStep (h : commandStep s = some s') :
    Transition batchCount s .command s' := by
  unfold commandStep at h
  cases hpoint : s.commandPoint with
  | take =>
    simp only [hpoint] at h
    split at h
    · cases h
    · next m rest hcommands =>
      cases h
      exact .takeProcess hpoint hcommands
    · next b rest hcommands =>
      cases h
      exact .takeComplete hpoint hcommands
  | getOrAdd m =>
    simp only [hpoint] at h
    split at h
    · next hkey =>
      cases h
      exact .getOrAddBlank hpoint hkey
    · split at h
      · next b hbox =>
        cases h
        exact .getOrAddFound hpoint hbox
      · next hbox =>
        cases h
        exact .getOrAddNew hpoint hbox
  | enqueue b m =>
    simp only [hpoint] at h
    cases h
    exact .enqueue hpoint
  | schedule b =>
    simp only [hpoint] at h
    split at h
    · next hflag =>
      cases h
      exact .scheduleBusy hpoint hflag
    · next hflag =>
      cases h
      exact .scheduleRun hpoint (by simpa using hflag)
  | running => simp [hpoint] at h
  | count b =>
    simp only [hpoint] at h
    split at h
    · next hqueue =>
      cases h
      exact .countZero hpoint (List.length_eq_zero_iff.1 hqueue)
    · next hqueue =>
      cases h
      exact .countPositive hpoint (fun hnil => hqueue (by simp [hnil]))
  | tryRemove b =>
    simp only [hpoint] at h
    cases h
    exact .tryRemove hpoint

theorem Transition.of_runStep {r : Nat} (h : runStep batchCount s r = some s') :
    Transition batchCount s (.run r) s' := by
  unfold runStep at h
  cases hpoint : (s.runs r).point with
  | loop =>
    simp only [hpoint] at h
    split at h
    · next hbatch =>
      split at h
      · next hqueue =>
        cases h
        exact .loopBreak hpoint (.inr hqueue)
      · next m rest hqueue =>
        cases h
        exact .loopDequeue hpoint hbatch hqueue
    · next hbatch =>
      cases h
      exact .loopBreak hpoint (.inl hbatch)
  | set m outcome =>
    simp only [hpoint] at h
    cases h
    exact .set hpoint
  | exchange =>
    simp only [hpoint] at h
    cases h
    exact .exchange hpoint
  | isEmpty =>
    simp only [hpoint] at h
    split at h
    · next hqueue =>
      cases h
      exact .isEmptyTrue hpoint hqueue
    · next m rest hqueue =>
      cases h
      exact .isEmptyFalse hpoint (by simp [hqueue])
  | reschedule =>
    simp only [hpoint] at h
    split at h
    · next hflag =>
      cases h
      exact .rescheduleBusy hpoint hflag
    · next hflag =>
      cases h
      exact .rescheduleRun hpoint (by simpa using hflag)
  | onMessageEmpty =>
    simp only [hpoint] at h
    cases h
    exact .onMessageEmpty hpoint
  | start m => simp [hpoint] at h
  | await m => simp [hpoint] at h
  | ended => simp [hpoint] at h

theorem Transition.of_step (h : step batchCount s a = some s') : Transition batchCount s a s' := by
  cases a with
  | process key hasReturnValue resultAccessible =>
    cases h
    exact .of_process
  | command => exact .of_commandStep h
  | run r => exact .of_runStep h
  | startSync r outcome =>
    simp only [step] at h
    split at h
    · next m hpoint =>
      cases h
      exact .startSync hpoint
    · cases h
  | startAsync r =>
    simp only [step] at h
    split at h
    · next m hpoint =>
      cases h
      exact .startAsync hpoint
    · cases h
  | complete r outcome =>
    simp only [step] at h
    split at h
    · next m hpoint =>
      cases h
      exact .complete hpoint
    · cases h

end IFramework.Mailboxes
