import IFramework.EntityFrameworkCore.UnitOfWorkBase

/-!
# Publishing anyway

`UnitOfWork` overrides the two methods of its base class. Outside the handling of a message,
`CommittingAsync` collects what the event bus holds in two lists of message states and saves it, and
`AfterCommitAsync` hands the states to the publisher: those of the events when the commit has
succeeded, those of the events that are to be published anyway when it has failed. The second list is
never cleared.
-/

namespace IFramework.EntityFrameworkCore

section Overrides

variable {S P O : Type}

/-- The `DomainExceptionEvent` of an exception. -/
def CommitException.domainExceptionEvent : CommitException P → Option (AggregateRootEvent P)
  | .domainException event => event
  | .other => none

/-- `CommittingAsync` without a message context. -/
def committingAsync (env : Environment P) (u : UnitOfWork S P O) :
    UnitOfWork S P O × Option (CommitException P) :=
  let u := { u with
    eventMessageStates := u.eventBus.getEvents
    anywayPublishEventMessageStates :=
      u.anywayPublishEventMessageStates ++ u.eventBus.getToPublishAnywayMessages }
  if (u.eventMessageStates ++ u.anywayPublishEventMessageStates).length > 0 then
    (u, env.saveCommand)
  else (u, none)

/-- `AfterCommitAsync` without a message context. -/
def afterCommitAsync (env : Environment P) (u : UnitOfWork S P O) : UnitOfWork S P O :=
  let u :=
    match u.exception with
    | none =>
      if (u.eventMessageStates ++ u.anywayPublishEventMessageStates).length > 0 then
        { u with sent := u.sent ++ u.eventMessageStates }
      else u
    | some e =>
      let u := { u with
        changeTracker := u.changeTracker.resetState
        anywayPublishEventMessageStates :=
          u.anywayPublishEventMessageStates ++ e.domainExceptionEvent.toList }
      if u.anywayPublishEventMessageStates.length > 0 then
        match env.saveFailedCommand with
        | some _ => u
        | none => { u with sent := u.sent ++ u.anywayPublishEventMessageStates }
      else u
  { u with exception := none, eventBus := u.eventBus.clearMessages true }

/-- `UnitOfWork`. -/
def Hooks.unitOfWork : Hooks S P O where
  committing := committingAsync
  afterCommit := afterCommitAsync

/-- The constructor. -/
def UnitOfWork.new : UnitOfWork S P O := ⟨.new, ⟨[], []⟩, none, [], [], []⟩

/-- One commit, with what is tracked and what is on the event bus when it is called. -/
structure CommitCall (S P : Type) where
  isAsync : Bool
  entries : List (EntityEntry S P)
  published : List (AggregateRootEvent P)
  publishedAnyway : List (AggregateRootEvent P)
  env : Environment P

/-- The unit of work when the commit is called; `sent` is what this commit hands over. -/
def CommitCall.prepare (c : CommitCall S P) (u : UnitOfWork S P O) : UnitOfWork S P O :=
  { u with
    eventBus := (u.eventBus.publishAll (some c.published)).publishAnyway c.publishedAnyway
    changeTracker := { u.changeTracker with entries := c.entries }
    sent := [] }

/-- The unit of work after the commit. -/
def CommitCall.run (c : CommitCall S P) (u : UnitOfWork S P O) : UnitOfWork S P O :=
  if c.isAsync then ((c.prepare u).commitAsync .unitOfWork c.env).1
  else ((c.prepare u).commit .unitOfWork c.env).1

/-- What each of the commits hands over. -/
def handedOver : UnitOfWork S P O → List (CommitCall S P) → List (List (AggregateRootEvent P))
  | _, [] => []
  | u, c :: cs => (c.run u).sent :: handedOver (c.run u) cs

/-- An event is known by the commit before which it has been passed to `PublishAnyway`. -/
structure PassedBefore (passed : AggregateRootEvent P → Option Nat) (k : Nat) (c : CommitCall S P) :
    Prop where
  anyway : ∀ e ∈ c.publishedAnyway, passed e = some k
  published : ∀ e ∈ c.published, passed e = none
  raised : ∀ entry ∈ c.entries, ∀ e ∈ entry.entity.getDomainEvents, passed e = none
  thrown : ∀ ex, c.env.saveChanges = some ex ∨ c.env.saveCommand = some ex ∨
    c.env.transaction = some ex → ∀ e ∈ ex.domainExceptionEvent, passed e = none

/-- Every event that is passed to `PublishAnyway` before a commit is handed over once by it, and by
no other commit. -/
def PublishedAnywayOnce (passed : AggregateRootEvent P → Option Nat) (u : UnitOfWork S P O)
    (commits : List (CommitCall S P)) : Prop :=
  ∀ (i : Nat) c messages, commits[i]? = some c → (handedOver u commits)[i]? = some messages →
    (messages.filter fun e => (passed e).isSome).Perm c.publishedAnyway

/-- One of the calls on the database fails, if it is made. -/
def CommitCall.Fails (c : CommitCall S P) : Prop :=
  c.env.saveChanges ≠ none ∨ c.env.saveCommand ≠ none ∨ c.env.transaction ≠ none

/-- A commit fails after it has collected the events, and the failure can be saved. -/
def CommitCall.FailsLate (c : CommitCall S P) : Prop :=
  c.env.saveChanges = none ∧ (c.env.saveCommand ≠ none ∨ c.env.transaction ≠ none) ∧
    c.env.saveFailedCommand = none

/-- Every commit with events to publish anyway fails late, and no commit after it fails. -/
def FailsLateOnce (commits : List (CommitCall S P)) : Prop :=
  ∀ (i : Nat) c, commits[i]? = some c → (c.publishedAnyway ≠ [] → c.FailsLate) ∧
    (c.Fails → c.env.saveFailedCommand = none →
      ∀ j < i, ∀ c', commits[j]? = some c' → c'.publishedAnyway = [])

end Overrides

/-! ## One commit -/

section Commit

variable {S P O : Type} {passed : AggregateRootEvent P → Option Nat} {u : UnitOfWork S P O}
  {c : CommitCall S P} {k : Nat}

/-- Between two commits the event bus is empty. -/
structure Ready (u : UnitOfWork S P O) : Prop where
  exception : u.exception = none
  eventQueue : u.eventBus.eventQueue = []
  anywayQueue : u.eventBus.toPublishAnywayEventQueue = []

theorem Ready.new : Ready (.new : UnitOfWork S P O) := ⟨rfl, rfl, rfl⟩

/-- The delegate of the transaction. -/
def CommitCall.attempt (c : CommitCall S P) (u : UnitOfWork S P O) :
    UnitOfWork S P O × Option (CommitException P) :=
  if c.isAsync then (c.prepare u).doCommitAsync .unitOfWork c.env
  else (c.prepare u).doCommit .unitOfWork c.env

theorem CommitCall.run_eq (c : CommitCall S P) (u : UnitOfWork S P O) :
    c.run u = (UnitOfWork.finish .unitOfWork c.env (c.attempt u)).1 := by
  unfold CommitCall.run CommitCall.attempt UnitOfWork.commit UnitOfWork.commitAsync
  split <;> rfl

theorem Ready.run (u : UnitOfWork S P O) (c : CommitCall S P) : Ready (c.run u) := by
  rw [c.run_eq]
  unfold UnitOfWork.finish
  split <;> exact ⟨rfl, rfl, rfl⟩

theorem attempt_of_saveChanges {e : CommitException P} (u : UnitOfWork S P O)
    (hfails : c.env.saveChanges = some e) :
    (c.attempt u).2 = some e ∧ (c.attempt u).1.sent = [] ∧
      (c.attempt u).1.anywayPublishEventMessageStates = u.anywayPublishEventMessageStates := by
  unfold CommitCall.attempt UnitOfWork.doCommit UnitOfWork.doCommitAsync
  rw [hfails]
  split <;> exact ⟨rfl, rfl, rfl⟩

theorem committingAsync_spec (env : Environment P) (u : UnitOfWork S P O) :
    (committingAsync env u).1 = { u with
        eventMessageStates := u.eventBus.getEvents
        anywayPublishEventMessageStates :=
          u.anywayPublishEventMessageStates ++ u.eventBus.getToPublishAnywayMessages } ∧
      ((committingAsync env u).2 = env.saveCommand ∨
        (committingAsync env u).2 = none ∧ u.eventBus.getEvents = [] ∧
          u.anywayPublishEventMessageStates = [] ∧
          u.eventBus.getToPublishAnywayMessages = []) := by
  unfold committingAsync
  dsimp only
  split
  · exact ⟨rfl, .inl rfl⟩
  next hnone =>
    refine ⟨rfl, .inr ⟨rfl, ?_⟩⟩
    simpa using hnone

theorem prepared_spec (hready : Ready u) (hpassed : PassedBefore passed k c) :
    ∀ w : UnitOfWork S P O, w = (c.prepare u).publishTracked.saveChanges ∨
        w = (c.prepare u).saveChanges.publishTracked →
      (∀ e ∈ w.eventBus.getEvents, passed e = none) ∧
        w.eventBus.getToPublishAnywayMessages = c.publishedAnyway ∧
        w.anywayPublishEventMessageStates = u.anywayPublishEventMessageStates ∧
        w.sent = [] ∧ w.exception = none := by
  -- the two orders differ in the entries that they read
  have hbus : ∀ entries : List (EntityEntry S P),
      (∀ entry ∈ entries, ∀ e ∈ entry.entity.getDomainEvents, passed e = none) →
      (∀ e ∈ (publishDomainEvents (c.prepare u).eventBus entries).1.eventQueue,
          passed e = none) ∧
        (publishDomainEvents (c.prepare u).eventBus entries).1.toPublishAnywayEventQueue =
          c.publishedAnyway := by
    intro entries hentries
    obtain ⟨hevents, -⟩ := publishDomainEvents_spec (c.prepare u).eventBus entries
    refine ⟨?_, ?_⟩
    · intro e he
      have hqueue : (c.prepare u).eventBus.eventQueue = c.published := by
        simp [CommitCall.prepare, EventBus.publishAnyway, hready.eventQueue]
      rw [hevents, hqueue] at he
      rcases List.mem_append.1 he with he | he
      · exact hpassed.published e he
      · obtain ⟨entry, hentry, he⟩ := List.mem_flatMap.1 he
        exact hentries entry hentry e he
    · rw [toPublishAnywayEventQueue_publishDomainEvents]
      simp [CommitCall.prepare, EventBus.publishAnyway, hready.anywayQueue]
  rintro w (rfl | rfl)
  · obtain ⟨hevents, hanyway⟩ := hbus c.entries hpassed.raised
    exact ⟨hevents, hanyway, rfl, rfl, hready.exception⟩
  · obtain ⟨hevents, hanyway⟩ := hbus ((c.prepare u).changeTracker.acceptAllChanges).entries (by
      intro entry hentry
      obtain ⟨entry', hentry', rfl⟩ := List.mem_map.1 hentry
      exact hpassed.raised entry' (List.mem_filter.1 hentry').1)
    exact ⟨hevents, hanyway, rfl, rfl, hready.exception⟩

/-- When `SaveChanges` succeeds, the events are collected. -/
theorem attempt_of_collected (hready : Ready u) (hpassed : PassedBefore passed k c)
    (hsaved : c.env.saveChanges = none) :
    (c.attempt u).1.sent = [] ∧ (c.attempt u).1.exception = none ∧
      (c.attempt u).1.anywayPublishEventMessageStates =
        u.anywayPublishEventMessageStates ++ c.publishedAnyway ∧
      (∀ e ∈ (c.attempt u).1.eventMessageStates, passed e = none) ∧
      ((c.attempt u).2 = none ∧ (c.env.saveCommand = none ∨
          u.anywayPublishEventMessageStates = [] ∧ c.publishedAnyway = []) ∨
        ∃ e, (c.attempt u).2 = some e ∧ c.env.saveCommand ≠ none ∧
          ∀ event ∈ e.domainExceptionEvent, passed event = none) := by
  obtain ⟨w, hw, hfst, hsnd⟩ : ∃ w : UnitOfWork S P O,
      (w = (c.prepare u).publishTracked.saveChanges ∨
        w = (c.prepare u).saveChanges.publishTracked) ∧
      (c.attempt u).1 = (committingAsync c.env w).1 ∧
      ((c.attempt u).2 = (committingAsync c.env w).2 ∨
        (c.attempt u).2 = (committingAsync c.env w).2.map fun _ => .other) := by
    unfold CommitCall.attempt UnitOfWork.doCommit UnitOfWork.doCommitAsync
    rw [hsaved]
    split
    · exact ⟨_, .inl rfl, rfl, .inl rfl⟩
    · refine ⟨_, .inr rfl, ?_⟩
      dsimp only [Hooks.unitOfWork]
      split
      next w' e heq => exact ⟨by rw [heq], .inr (by rw [heq]; rfl)⟩
      next w' heq => exact ⟨by rw [heq], .inr (by rw [heq]; rfl)⟩
  obtain ⟨hevents, hanyway, hstates, hsent, hexception⟩ := prepared_spec hready hpassed w hw
  obtain ⟨hlists, hthrown⟩ := committingAsync_spec c.env w
  rw [hfst, hlists]
  refine ⟨hsent, hexception, by rw [← hstates, ← hanyway], hevents, ?_⟩
  rcases hthrown with hthrown | ⟨hthrown, -, hnone, hnone'⟩
  · cases hcommand : c.env.saveCommand with
    | none =>
      rw [hthrown, hcommand] at hsnd
      exact .inl ⟨by simpa using hsnd, .inl rfl⟩
    | some e =>
      rw [hthrown, hcommand] at hsnd
      rcases hsnd with hsnd | hsnd
      · exact .inr ⟨e, hsnd, by simp, hpassed.thrown e (.inr (.inl hcommand))⟩
      · exact .inr ⟨.other, hsnd, by simp, by simp [CommitException.domainExceptionEvent]⟩
  · rw [hthrown] at hsnd
    refine .inl ⟨by simpa using hsnd, .inr ⟨hstates ▸ hnone, hanyway ▸ hnone'⟩⟩

/-- The events of a list that have been passed to `PublishAnyway`. -/
def anywayOf (passed : AggregateRootEvent P → Option Nat) (l : List (AggregateRootEvent P)) :
    List (AggregateRootEvent P) :=
  l.filter fun e => (passed e).isSome

theorem anywayOf_eq_nil {l : List (AggregateRootEvent P)} (h : ∀ e ∈ l, passed e = none) :
    anywayOf passed l = [] := by
  simp only [anywayOf, List.filter_eq_nil_iff]
  intro e he
  simp [h e he]

theorem anywayOf_append (l l' : List (AggregateRootEvent P)) :
    anywayOf passed (l ++ l') = anywayOf passed l ++ anywayOf passed l' :=
  List.filter_append _ _

theorem anywayOf_publishedAnyway (hpassed : PassedBefore passed k c) :
    anywayOf passed c.publishedAnyway = c.publishedAnyway := by
  refine List.filter_eq_self.2 ?_
  intro e he
  simp [hpassed.anyway e he]

theorem afterCommitAsync_of_exception (env : Environment P) {e : CommitException P}
    (hexception : u.exception = some e) :
    (afterCommitAsync env u).anywayPublishEventMessageStates =
        u.anywayPublishEventMessageStates ++ e.domainExceptionEvent.toList ∧
      (afterCommitAsync env u).sent =
        if env.saveFailedCommand = none then
          u.sent ++ (u.anywayPublishEventMessageStates ++ e.domainExceptionEvent.toList)
        else u.sent := by
  unfold afterCommitAsync
  rw [hexception]
  dsimp only
  split
  · cases env.saveFailedCommand <;> exact ⟨rfl, rfl⟩
  next hnone =>
    have hnil : u.anywayPublishEventMessageStates ++ e.domainExceptionEvent.toList = [] := by
      simpa using hnone
    refine ⟨rfl, ?_⟩
    rw [hnil, List.append_nil, ite_self]

/-- `AfterCommitAsync` after a commit that has succeeded. -/
theorem afterCommitAsync_of_success (env : Environment P) (hexception : u.exception = none) :
    (afterCommitAsync env u).anywayPublishEventMessageStates =
        u.anywayPublishEventMessageStates ∧
      ((afterCommitAsync env u).sent = u.sent ++ u.eventMessageStates ∨
        (afterCommitAsync env u).sent = u.sent) := by
  unfold afterCommitAsync
  rw [hexception]
  dsimp only
  split
  · exact ⟨rfl, .inl rfl⟩
  · exact ⟨rfl, .inr rfl⟩

/-- The delegate: what it has collected, and what it throws. -/
theorem attempt_spec (hready : Ready u) (hpassed : PassedBefore passed k c) :
    (c.attempt u).1.sent = [] ∧
      anywayOf passed (c.attempt u).1.anywayPublishEventMessageStates =
        anywayOf passed u.anywayPublishEventMessageStates ++
          (if c.env.saveChanges = none then c.publishedAnyway else []) ∧
      ((∃ e, (c.attempt u).2 = some e ∧ c.Fails ∧
          ∀ event ∈ e.domainExceptionEvent, passed event = none) ∨
        (c.attempt u).2 = none ∧ c.env.saveChanges = none ∧ (c.attempt u).1.exception = none ∧
          (∀ e ∈ (c.attempt u).1.eventMessageStates, passed e = none) ∧
          (c.env.saveCommand = none ∨
            u.anywayPublishEventMessageStates = [] ∧ c.publishedAnyway = [])) := by
  cases hsaved : c.env.saveChanges with
  | some e =>
    obtain ⟨hthrown, hsent, hstates⟩ := attempt_of_saveChanges u hsaved
    refine ⟨hsent, by simp [hstates], .inl ⟨e, hthrown, .inl (by simp [hsaved]), ?_⟩⟩
    exact hpassed.thrown e (.inl hsaved)
  | none =>
    obtain ⟨hsent, hexception, hstates, hevents, hthrown⟩ :=
      attempt_of_collected hready hpassed hsaved
    refine ⟨hsent, ?_, ?_⟩
    · rw [hstates, anywayOf_append, anywayOf_publishedAnyway hpassed, if_pos rfl]
    · rcases hthrown with ⟨hthrown, hcommand⟩ | ⟨e, hthrown, hcommand, hevent⟩
      · exact .inr ⟨hthrown, rfl, hexception, hevents, hcommand⟩
      · exact .inl ⟨e, hthrown, .inr (.inl hcommand), hevent⟩

/-- The delegate and the commit of its transaction: an exception leaves them, or they return. -/
theorem thrown_cases (hready : Ready u) (hpassed : PassedBefore passed k c) :
    (∃ e, (c.attempt u).2.or c.env.transaction = some e ∧ c.Fails ∧
        ∀ event ∈ e.domainExceptionEvent, passed event = none) ∨
      (c.attempt u).2.or c.env.transaction = none ∧ (c.attempt u).1.exception = none ∧
        (∀ e ∈ (c.attempt u).1.eventMessageStates, passed e = none) ∧
        (¬c.Fails ∨ u.anywayPublishEventMessageStates = [] ∧ c.publishedAnyway = []) := by
  obtain ⟨-, -, hcases⟩ := attempt_spec hready hpassed
  rcases hcases with ⟨e, hthrown, hfails, hevent⟩ |
    ⟨hthrown, hsaved, hexception, hevents, hcommand⟩
  · exact .inl ⟨e, by rw [hthrown, Option.some_or], hfails, hevent⟩
  · cases htransaction : c.env.transaction with
    | some e =>
      refine .inl ⟨e, by rw [hthrown, Option.none_or], .inr (.inr (by simp [htransaction])), ?_⟩
      exact hpassed.thrown e (.inr (.inr htransaction))
    | none =>
      refine .inr ⟨by rw [hthrown, Option.none_or], hexception, hevents, ?_⟩
      refine hcommand.imp_left fun hcommand hfails => ?_
      rcases hfails with hne | hne | hne
      · exact hne hsaved
      · exact hne hcommand
      · exact hne htransaction

/-- A commit that fails keeps what it has collected, and hands it over if the failure is saved. -/
theorem run_of_thrown {e : CommitException P}
    (hthrown : (c.attempt u).2.or c.env.transaction = some e)
    (hevent : ∀ event ∈ e.domainExceptionEvent, passed event = none)
    (hsent : (c.attempt u).1.sent = []) :
    anywayOf passed (c.run u).anywayPublishEventMessageStates =
        anywayOf passed (c.attempt u).1.anywayPublishEventMessageStates ∧
      anywayOf passed (c.run u).sent =
        if c.env.saveFailedCommand = none then
          anywayOf passed (c.attempt u).1.anywayPublishEventMessageStates
        else [] := by
  obtain ⟨hkept, hhanded⟩ := afterCommitAsync_of_exception c.env
    (u := { (c.attempt u).1.rollback with exception := some e }) (e := e) rfl
  have hnone : anywayOf passed e.domainExceptionEvent.toList = [] :=
    anywayOf_eq_nil fun event hmem => hevent event (by simpa using hmem)
  have hrun : c.run u = afterCommitAsync c.env
      { (c.attempt u).1.rollback with exception := some e } := by
    rw [c.run_eq]
    simp only [UnitOfWork.finish, hthrown]
    rfl
  constructor
  · rw [hrun, hkept, anywayOf_append, hnone, List.append_nil]
    rfl
  · rw [hrun, hhanded]
    split
    · show anywayOf passed ((c.attempt u).1.sent ++ _) = _
      rw [hsent, List.nil_append, anywayOf_append, hnone, List.append_nil]
      rfl
    · show anywayOf passed (c.attempt u).1.sent = []
      rw [hsent]
      rfl

/-- A commit that succeeds keeps what it has collected, and hands over none of it. -/
theorem run_of_returned (hthrown : (c.attempt u).2.or c.env.transaction = none)
    (hexception : (c.attempt u).1.exception = none)
    (hevents : ∀ e ∈ (c.attempt u).1.eventMessageStates, passed e = none)
    (hsent : (c.attempt u).1.sent = []) :
    (c.run u).anywayPublishEventMessageStates =
        (c.attempt u).1.anywayPublishEventMessageStates ∧
      anywayOf passed (c.run u).sent = [] := by
  obtain ⟨hkept, hhanded⟩ := afterCommitAsync_of_success c.env hexception
  have hrun : c.run u = afterCommitAsync c.env (c.attempt u).1 := by
    rw [c.run_eq]
    simp only [UnitOfWork.finish, hthrown]
    rfl
  rw [hrun]
  refine ⟨hkept, ?_⟩
  rcases hhanded with hhanded | hhanded
  · rw [hhanded, hsent, List.nil_append]
    exact anywayOf_eq_nil hevents
  · rw [hhanded, hsent]
    rfl

/-- What a commit keeps of the events that are to be published anyway, and what it hands over: all
that it keeps, if it has failed and the failure could be saved, and else nothing. -/
theorem run_spec (hready : Ready u) (hpassed : PassedBefore passed k c) :
    anywayOf passed (c.run u).anywayPublishEventMessageStates =
        anywayOf passed u.anywayPublishEventMessageStates ++
          (if c.env.saveChanges = none then c.publishedAnyway else []) ∧
      (c.Fails ∧ c.env.saveFailedCommand = none ∧
          anywayOf passed (c.run u).sent =
            anywayOf passed (c.run u).anywayPublishEventMessageStates ∨
        anywayOf passed (c.run u).sent = [] ∧
          (¬c.Fails ∨ c.env.saveFailedCommand ≠ none ∨
            u.anywayPublishEventMessageStates = [] ∧ c.publishedAnyway = [])) := by
  obtain ⟨hsent, hcollected, -⟩ := attempt_spec hready hpassed
  obtain ⟨e, hthrown, hfails, hevent⟩ | ⟨hthrown, hexception, hevents, hcommand⟩ :=
    thrown_cases hready hpassed
  · obtain ⟨hkept, hhanded⟩ := run_of_thrown hthrown hevent hsent
    refine ⟨hkept.trans hcollected, ?_⟩
    by_cases hrecorded : c.env.saveFailedCommand = none
    · rw [if_pos hrecorded] at hhanded
      exact .inl ⟨hfails, hrecorded, hhanded.trans hkept.symm⟩
    · rw [if_neg hrecorded] at hhanded
      exact .inr ⟨hhanded, .inr (.inl hrecorded)⟩
  · obtain ⟨hkept, hhanded⟩ := run_of_returned hthrown hexception hevents hsent
    refine ⟨by rw [hkept, hcollected], .inr ⟨hhanded, ?_⟩⟩
    exact hcommand.imp_right Or.inr

/-- One commit hands over the events of its own calls of `PublishAnyway` exactly if it fails late,
or there are none, and it does not hand over earlier ones. -/
theorem run_iff (hready : Ready u) (hpassed : PassedBefore passed k c)
    (hearlier : ∀ e ∈ anywayOf passed u.anywayPublishEventMessageStates, passed e ≠ some k) :
    (anywayOf passed (c.run u).sent).Perm c.publishedAnyway ↔
      (c.publishedAnyway ≠ [] → c.FailsLate) ∧
        (c.Fails → c.env.saveFailedCommand = none →
          anywayOf passed u.anywayPublishEventMessageStates = []) := by
  obtain ⟨hkept, ⟨hfails, hrecorded, hsent⟩ | ⟨hsent, hcases⟩⟩ := run_spec hready hpassed
  · rw [hsent, hkept]
    by_cases hsaved : c.env.saveChanges = none
    · have hlate : c.FailsLate :=
        ⟨hsaved, hfails.resolve_left (fun hne => hne hsaved), hrecorded⟩
      rw [if_pos hsaved]
      constructor
      · intro hperm
        refine ⟨fun _ => hlate, fun _ _ => ?_⟩
        have hlength := hperm.length_eq
        rw [List.length_append] at hlength
        exact List.length_eq_zero_iff.1 (by omega)
      · rintro ⟨-, hnil⟩
        rw [hnil hfails hrecorded, List.nil_append]
    · rw [if_neg hsaved, List.append_nil]
      constructor
      · intro hperm
        have hnil : c.publishedAnyway = [] := by
          refine List.eq_nil_iff_forall_not_mem.2 fun e he => ?_
          exact hearlier e (hperm.mem_iff.2 he) (hpassed.anyway e he)
        rw [hnil] at hperm ⊢
        exact ⟨fun hne => absurd rfl hne, fun _ _ => hperm.eq_nil⟩
      · rintro ⟨hlate, hnil⟩
        have hnone : c.publishedAnyway = [] := by
          by_contra hne
          exact hsaved (hlate hne).1
        rw [hnil hfails hrecorded, hnone]
  · rw [hsent, List.nil_perm]
    constructor
    · intro hnone
      refine ⟨fun hne => absurd hnone hne, fun hfails hrecorded => ?_⟩
      rcases hcases with hno | hno | ⟨hnil, -⟩
      · exact absurd hfails hno
      · exact absurd hrecorded hno
      · rw [hnil]
        rfl
    · rintro ⟨hlate, -⟩
      by_contra hne
      obtain ⟨-, hfails, hrecorded⟩ := hlate hne
      rcases hcases with hno | hno | ⟨-, hnone⟩
      · exact hno (.inr hfails)
      · exact hno hrecorded
      · exact hne hnone

end Commit

/-! ## Every sequence of commits -/

section Commits

variable {S P O : Type} {passed : AggregateRootEvent P → Option Nat} {u : UnitOfWork S P O}

theorem publishedAnywayOnce_cons (c : CommitCall S P) (commits : List (CommitCall S P)) :
    PublishedAnywayOnce passed u (c :: commits) ↔
      (anywayOf passed (c.run u).sent).Perm c.publishedAnyway ∧
        PublishedAnywayOnce passed (c.run u) commits := by
  constructor
  · intro h
    exact ⟨h 0 c _ rfl rfl, fun i c' messages hc' hmessages => h (i + 1) c' messages hc' hmessages⟩
  · rintro ⟨hfirst, hrest⟩ i c' messages hc' hmessages
    cases i with
    | zero =>
      cases hc'
      cases hmessages
      exact hfirst
    | succ i => exact hrest i c' messages hc' hmessages

theorem publishedAnywayOnce_iff_of_kept {n : Nat} {commits : List (CommitCall S P)}
    (hready : Ready u)
    (hpassed : ∀ (i : Nat) c, commits[i]? = some c → PassedBefore passed (n + i) c)
    (hearlier : ∀ e ∈ anywayOf passed u.anywayPublishEventMessageStates,
      ∃ j < n, passed e = some j) :
    PublishedAnywayOnce passed u commits ↔
      ∀ (i : Nat) c, commits[i]? = some c → (c.publishedAnyway ≠ [] → c.FailsLate) ∧
        (c.Fails → c.env.saveFailedCommand = none →
          anywayOf passed u.anywayPublishEventMessageStates = [] ∧
            ∀ j < i, ∀ c', commits[j]? = some c' → c'.publishedAnyway = []) := by
  induction commits generalizing u n with
  | nil => simp [PublishedAnywayOnce]
  | cons c commits ih =>
    have hfirst : PassedBefore passed n c := hpassed 0 c rfl
    have hne : ∀ e ∈ anywayOf passed u.anywayPublishEventMessageStates, passed e ≠ some n := by
      intro e he hn
      obtain ⟨j, hj, heq⟩ := hearlier e he
      rw [heq, Option.some.injEq] at hn
      omega
    have hiff := run_iff hready hfirst hne
    obtain ⟨hkept, -⟩ := run_spec hready hfirst
    have ih := ih (n := n + 1) (u := c.run u) (.run u c)
      (fun i c' hc' => by
        have h := hpassed (i + 1) c' hc'
        rwa [Nat.add_comm i 1, ← Nat.add_assoc] at h)
      (by
        intro e he
        rw [hkept] at he
        rcases List.mem_append.1 he with he | he
        · obtain ⟨j, hj, heq⟩ := hearlier e he
          exact ⟨j, by omega, heq⟩
        · refine ⟨n, Nat.lt_succ_self n, hfirst.anyway e ?_⟩
          split at he
          · exact he
          · simp at he)
    -- a commit that fails early has no events of its own to keep
    have hkept' : (c.publishedAnyway ≠ [] → c.FailsLate) →
        anywayOf passed (c.run u).anywayPublishEventMessageStates =
          anywayOf passed u.anywayPublishEventMessageStates ++ c.publishedAnyway := by
      intro hlate
      rw [hkept]
      split
      · rfl
      next hsaved =>
        have hnone : c.publishedAnyway = [] := by
          by_contra hne
          exact hsaved (hlate hne).1
        rw [hnone]
    rw [publishedAnywayOnce_cons, hiff, ih]
    constructor
    · rintro ⟨⟨hlate, hnil⟩, hrest⟩ i c' hc'
      cases i with
      | zero =>
        cases hc'
        exact ⟨hlate, fun hfails hrecorded => ⟨hnil hfails hrecorded, fun j hj => by omega⟩⟩
      | succ i =>
        obtain ⟨hlate', hnil'⟩ := hrest i c' hc'
        refine ⟨hlate', fun hfails hrecorded => ?_⟩
        obtain ⟨hkept₀, hearlier₀⟩ := hnil' hfails hrecorded
        rw [hkept' hlate] at hkept₀
        obtain ⟨hnil₀, hnone₀⟩ := List.append_eq_nil_iff.1 hkept₀
        refine ⟨hnil₀, fun j hj c'' hc'' => ?_⟩
        cases j with
        | zero =>
          cases hc''
          exact hnone₀
        | succ j => exact hearlier₀ j (by omega) c'' hc''
    · intro hall
      obtain ⟨hlate, hnil⟩ := hall 0 c rfl
      refine ⟨⟨hlate, fun hfails hrecorded => (hnil hfails hrecorded).1⟩, ?_⟩
      intro i c' hc'
      obtain ⟨hlate', hnil'⟩ := hall (i + 1) c' hc'
      refine ⟨hlate', fun hfails hrecorded => ?_⟩
      obtain ⟨hnil₀, hearlier₀⟩ := hnil' hfails hrecorded
      refine ⟨?_, fun j hj c'' hc'' => hearlier₀ (j + 1) (by omega) c'' hc''⟩
      rw [hkept' hlate, hnil₀, hearlier₀ 0 (by omega) c rfl]
      rfl

/-- Events that are passed to `PublishAnyway` are handed over once, by their own commit, exactly if
every commit with such events fails after it has collected them and can save the failure, and no
later commit does so. -/
theorem publishedAnywayOnce_iff_failsLateOnce (commits : List (CommitCall S P))
    (hpassed : ∀ (i : Nat) c, commits[i]? = some c → PassedBefore passed i c) :
    PublishedAnywayOnce passed (.new : UnitOfWork S P O) commits ↔ FailsLateOnce commits := by
  have hiff := publishedAnywayOnce_iff_of_kept (n := 0) (u := (.new : UnitOfWork S P O)) .new
    (fun i c hc => by
      rw [Nat.zero_add]
      exact hpassed i c hc)
    (by simp [UnitOfWork.new, anywayOf])
  rw [hiff]
  simp [FailsLateOnce, UnitOfWork.new, anywayOf]

/-- A commit with one event to publish anyway, whose `SaveCommandAsync` fails, and one that
succeeds. -/
def failsThenSucceeds : List (CommitCall Nat Nat) :=
  [⟨true, [], [], [⟨0, "", 1⟩], ⟨none, some .other, none, none⟩⟩,
    ⟨false, [], [⟨0, "", 2⟩], [], .succeeds⟩]

/-- The event with the payload 1 is passed to `PublishAnyway` before the first commit. -/
def passedFirst (e : AggregateRootEvent Nat) : Option Nat := if e.payload = 1 then some 0 else none

theorem publishedAnywayOnce_of_failsThenSucceeds :
    PublishedAnywayOnce passedFirst (.new : UnitOfWork Nat Nat Nat) failsThenSucceeds ∧
      handedOver (.new : UnitOfWork Nat Nat Nat) failsThenSucceeds =
        [[⟨0, "", 1⟩], [⟨0, "", 2⟩]] := by
  refine ⟨(publishedAnywayOnce_iff_failsLateOnce failsThenSucceeds ?_).2 ?_, by decide⟩
  · intro i c hc
    match i, hc with
    | 0, rfl =>
      exact ⟨by simp [passedFirst], by simp, by simp, by simp [CommitException.domainExceptionEvent]⟩
    | 1, rfl =>
      exact ⟨by simp, by simp [passedFirst], by simp, by simp [Environment.succeeds]⟩
  · intro i c hc
    match i, hc with
    | 0, rfl => exact ⟨fun _ => ⟨rfl, .inl (by simp), rfl⟩, fun _ _ j hj => by omega⟩
    | 1, rfl => exact ⟨by simp, by simp [CommitCall.Fails, Environment.succeeds]⟩

/-- A commit that succeeds does not hand over the event that was to be published anyway. -/
theorem not_publishedAnywayOnce_of_success :
    PassedBefore passedFirst 0
        (⟨true, [], [], [⟨0, "", 1⟩], .succeeds⟩ : CommitCall Nat Nat) ∧
      ¬PublishedAnywayOnce passedFirst (.new : UnitOfWork Nat Nat Nat)
        [⟨true, [], [], [⟨0, "", 1⟩], .succeeds⟩] := by
  refine ⟨⟨by simp [passedFirst], by simp, by simp, by simp [Environment.succeeds]⟩, ?_⟩
  intro honce
  have hlength := (honce 0 _ _ rfl rfl).length_eq
  exact absurd hlength (by decide)

end Commits

end IFramework.EntityFrameworkCore
