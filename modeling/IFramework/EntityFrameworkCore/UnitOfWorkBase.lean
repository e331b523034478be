import IFramework.EntityFrameworkCore.AggregateRoot
import IFramework.Event.EventBus
import Mathlib.Data.List.Perm.Basic

/-!
# The two ways to commit a unit of work

`Commit` and `CommitAsync` save the changes of the one `DbContext` of a unit of work and publish the
domain events of the aggregates it tracks, in one transaction. `CommitAsync` collects the events
before it saves, `Commit` after; a successful `SaveChanges` detaches the entities that have been
deleted. `CommittingAsync` and `AfterCommitAsync` are virtual: `Hooks` are the two methods of a
subclass, and `base` those of `UnitOfWorkBase` itself.

An `Environment` says which calls on the database fail in a commit. The delegate of the transaction
runs once.
-/

namespace IFramework.EntityFrameworkCore

/-- The `EntityState` of an entity that is tracked. -/
inductive EntityState where
  | unchanged
  | deleted
  | modified
  | added
  deriving DecidableEq, Repr

/-- What can be tracked. -/
inductive Entity (S P : Type) where
  | aggregateRoot (root : AggregateRoot S P)
  | other
  deriving DecidableEq

/-- An entry of the change tracker. -/
structure EntityEntry (S P : Type) where
  state : EntityState
  entity : Entity S P
  deriving DecidableEq

/-- The entries, and the entities that were tracked once. -/
structure ChangeTracker (S P : Type) where
  entries : List (EntityEntry S P)
  detached : List (Entity S P)

/-- An exception of a commit: a `DomainException`, or another one. -/
inductive CommitException (P : Type) where
  | domainException (domainExceptionEvent : Option (AggregateRootEvent P))
  | other
  deriving DecidableEq

/-- A `UnitOfWork`, with what it has handed to `MessagePublisher.SendAsync`. A `MessageState` is
modelled by its event. -/
structure UnitOfWork (S P O : Type) where
  eventBus : EventBus (AggregateRootEvent P) O
  changeTracker : ChangeTracker S P
  exception : Option (CommitException P)
  eventMessageStates : List (AggregateRootEvent P)
  anywayPublishEventMessageStates : List (AggregateRootEvent P)
  sent : List (AggregateRootEvent P)

/-- The exceptions of `SaveChanges`, of `SaveCommandAsync`, of the commit of the transaction and of
`SaveFailedCommandAsync`, where they are called. -/
structure Environment (P : Type) where
  saveChanges : Option (CommitException P)
  saveCommand : Option (CommitException P)
  transaction : Option (CommitException P)
  saveFailedCommand : Option (CommitException P)

/-- The methods that a subclass overrides; `committing` may throw. -/
structure Hooks (S P O : Type) where
  committing : Environment P → UnitOfWork S P O → UnitOfWork S P O × Option (CommitException P)
  afterCommit : Environment P → UnitOfWork S P O → UnitOfWork S P O

section Entities

variable {S P : Type}

/-- The domain events of an entity. -/
def Entity.getDomainEvents : Entity S P → List (AggregateRootEvent P)
  | .aggregateRoot root => root.getDomainEvents
  | .other => []

/-- An entity without its domain events. -/
def Entity.clearDomainEvents : Entity S P → Entity S P
  | .aggregateRoot root => .aggregateRoot root.clearDomainEvents
  | .other => .other

/-- All entities. -/
def ChangeTracker.entities (tracker : ChangeTracker S P) : List (Entity S P) :=
  tracker.entries.map EntityEntry.entity ++ tracker.detached

/-- A successful `SaveChanges`. -/
def ChangeTracker.acceptAllChanges (tracker : ChangeTracker S P) : ChangeTracker S P where
  entries := (tracker.entries.filter fun entry => entry.state ≠ .deleted).map fun entry =>
    { entry with state := .unchanged }
  detached := tracker.detached ++
    (tracker.entries.filter fun entry => entry.state = .deleted).map EntityEntry.entity

/-- `MsDbContext.Rollback`. -/
def ChangeTracker.resetState (tracker : ChangeTracker S P) : ChangeTracker S P where
  entries := []
  detached := tracker.entities

end Entities

section Commit

variable {S P O : Type}

/-- The loop over the entries: publish the events of an aggregate and clear them. -/
def publishDomainEvents (bus : EventBus (AggregateRootEvent P) O) :
    List (EntityEntry S P) → EventBus (AggregateRootEvent P) O × List (EntityEntry S P)
  | [] => (bus, [])
  | entry :: entries =>
    match entry.entity with
    | .aggregateRoot root =>
      let bus := bus.publishAll (some root.getDomainEvents)
      let (bus, entries) := publishDomainEvents bus entries
      (bus, { entry with entity := .aggregateRoot root.clearDomainEvents } :: entries)
    | .other =>
      let (bus, entries) := publishDomainEvents bus entries
      (bus, entry :: entries)

namespace UnitOfWork

/-- Publish the events of all aggregates that are tracked. -/
def publishTracked (u : UnitOfWork S P O) : UnitOfWork S P O :=
  let (bus, entries) := publishDomainEvents u.eventBus u.changeTracker.entries
  { u with eventBus := bus, changeTracker := { u.changeTracker with entries := entries } }

/-- `SaveChanges`. -/
def saveChanges (u : UnitOfWork S P O) : UnitOfWork S P O :=
  { u with changeTracker := u.changeTracker.acceptAllChanges }

/-- `Rollback`. -/
def rollback (u : UnitOfWork S P O) : UnitOfWork S P O :=
  { u with
    changeTracker := u.changeTracker.resetState
    eventBus := u.eventBus.clearMessages false }

variable (hooks : Hooks S P O) (env : Environment P)

/-- `DoCommit`; `Wait` wraps an exception of `CommittingAsync` into an `AggregateException`. -/
def doCommit (u : UnitOfWork S P O) : UnitOfWork S P O × Option (CommitException P) :=
  match env.saveChanges with
  | some e => (u, some e)
  | none =>
    match hooks.committing env u.saveChanges.publishTracked with
    | (u, some _) => (u, some .other)
    | (u, none) => (u, none)

/-- `DoCommitAsync`. -/
def doCommitAsync (u : UnitOfWork S P O) : UnitOfWork S P O × Option (CommitException P) :=
  match env.saveChanges with
  | some e => (u.publishTracked, some e)
  | none => hooks.committing env u.publishTracked.saveChanges

/-- The transaction around the delegate, the `catch` and the `finally` block: the unit of work
afterwards, and what is thrown. -/
def finish (result : UnitOfWork S P O × Option (CommitException P)) :
    UnitOfWork S P O × Option (CommitException P) :=
  match result.2.or env.transaction with
  | some e => (hooks.afterCommit env { result.1.rollback with exception := some e }, some e)
  | none => (hooks.afterCommit env result.1, none)

/-- `Commit`. -/
def commit (u : UnitOfWork S P O) : UnitOfWork S P O × Option (CommitException P) :=
  finish hooks env (u.doCommit hooks env)

/-- `CommitAsync`. -/
def commitAsync (u : UnitOfWork S P O) : UnitOfWork S P O × Option (CommitException P) :=
  finish hooks env (u.doCommitAsync hooks env)

end UnitOfWork

/-- `UnitOfWorkBase`: both methods do nothing. -/
def Hooks.base : Hooks S P O where
  committing _ u := (u, none)
  afterCommit _ u := u

/-- No call fails. -/
def Environment.succeeds : Environment P := ⟨none, none, none, none⟩

end Commit

/-! ## Whether they agree -/

section Agreement

variable {S P O : Type}

/-- Both commits publish the same events, up to their order, and leave no aggregate with events. -/
def CommitsAgree (u : UnitOfWork S P O) : Prop :=
  (u.commit .base .succeeds).1.eventBus.getEvents.Perm
      (u.commitAsync .base .succeeds).1.eventBus.getEvents ∧
    (∀ entity ∈ (u.commit .base .succeeds).1.changeTracker.entities,
      entity.getDomainEvents = []) ∧
    ∀ entity ∈ (u.commitAsync .base .succeeds).1.changeTracker.entities,
      entity.getDomainEvents = []

theorem publishDomainEvents_spec (bus : EventBus (AggregateRootEvent P) O)
    (entries : List (EntityEntry S P)) :
    (publishDomainEvents bus entries).1.eventQueue =
        bus.eventQueue ++ entries.flatMap (fun entry => entry.entity.getDomainEvents) ∧
      (publishDomainEvents bus entries).2 =
        entries.map fun entry => { entry with entity := entry.entity.clearDomainEvents } := by
  induction entries generalizing bus with
  | nil => simp [publishDomainEvents]
  | cons entry entries ih =>
    obtain ⟨state, entity⟩ := entry
    cases entity with
    | aggregateRoot root =>
      obtain ⟨hbus, hentries⟩ := ih (bus.publishAll (some root.getDomainEvents))
      simp [publishDomainEvents, hbus, hentries, Entity.getDomainEvents, Entity.clearDomainEvents]
    | other =>
      obtain ⟨hbus, hentries⟩ := ih bus
      simp [publishDomainEvents, hbus, hentries, Entity.getDomainEvents, Entity.clearDomainEvents]

theorem toPublishAnywayEventQueue_publishDomainEvents (bus : EventBus (AggregateRootEvent P) O)
    (entries : List (EntityEntry S P)) :
    (publishDomainEvents bus entries).1.toPublishAnywayEventQueue =
      bus.toPublishAnywayEventQueue := by
  induction entries generalizing bus with
  | nil => rfl
  | cons entry entries ih =>
    obtain ⟨state, entity⟩ := entry
    cases entity with
    | aggregateRoot root =>
      simp [publishDomainEvents, ih (bus.publishAll (some root.getDomainEvents))]
    | other => simp [publishDomainEvents, ih bus]

theorem getDomainEvents_clearDomainEvents (entity : Entity S P) :
    entity.clearDomainEvents.getDomainEvents = [] := by
  cases entity <;> rfl

/-- The events of the entries that stay are all events, if those that go have none. -/
theorem flatMap_filter_not_deleted {entries : List (EntityEntry S P)}
    (hdeleted : ∀ entry ∈ entries, entry.state = .deleted → entry.entity.getDomainEvents = []) :
    (entries.filter fun entry => entry.state ≠ .deleted).flatMap
        (fun entry => entry.entity.getDomainEvents) =
      entries.flatMap fun entry => entry.entity.getDomainEvents := by
  induction entries with
  | nil => rfl
  | cons entry entries ih =>
    have ih := ih fun entry' hentry' => hdeleted entry' (List.mem_cons_of_mem _ hentry')
    by_cases hstate : entry.state = .deleted
    · have hnone := hdeleted entry List.mem_cons_self hstate
      simpa [hstate, hnone] using ih
    · simpa [hstate] using ih

theorem commit_base_spec (u : UnitOfWork S P O) (entries : List (EntityEntry S P))
    (htracker : u.changeTracker = ⟨entries, []⟩) :
    (u.commit .base .succeeds).1.eventBus.getEvents = u.eventBus.getEvents ++
        (entries.filter fun entry => entry.state ≠ .deleted).flatMap
          (fun entry => entry.entity.getDomainEvents) ∧
      (u.commit .base .succeeds).1.changeTracker.entities =
        (entries.filter fun entry => entry.state ≠ .deleted).map
            (fun entry => entry.entity.clearDomainEvents) ++
          (entries.filter fun entry => entry.state = .deleted).map EntityEntry.entity := by
  obtain ⟨hbus, hentries⟩ := publishDomainEvents_spec u.eventBus
    (u.changeTracker.acceptAllChanges).entries
  simp only [UnitOfWork.commit, UnitOfWork.doCommit, UnitOfWork.finish, Environment.succeeds,
    Hooks.base, UnitOfWork.publishTracked, UnitOfWork.saveChanges, Option.or_none,
    EventBus.getEvents, ChangeTracker.entities, hbus, hentries]
  simp [ChangeTracker.acceptAllChanges, htracker, List.flatMap_map, Function.comp_def]

/-- `CommitAsync` on a unit of work of its base class. -/
theorem commitAsync_base_spec (u : UnitOfWork S P O) (entries : List (EntityEntry S P))
    (htracker : u.changeTracker = ⟨entries, []⟩) :
    (u.commitAsync .base .succeeds).1.eventBus.getEvents =
        u.eventBus.getEvents ++ entries.flatMap (fun entry => entry.entity.getDomainEvents) ∧
      ∀ entity ∈ (u.commitAsync .base .succeeds).1.changeTracker.entities,
        ∃ entry ∈ entries, entity = entry.entity.clearDomainEvents := by
  obtain ⟨hbus, hentries⟩ := publishDomainEvents_spec u.eventBus u.changeTracker.entries
  simp only [UnitOfWork.commitAsync, UnitOfWork.doCommitAsync, UnitOfWork.finish,
    Environment.succeeds, Hooks.base, UnitOfWork.publishTracked, UnitOfWork.saveChanges,
    Option.or_none, EventBus.getEvents, ChangeTracker.entities, hbus, hentries]
  refine ⟨by rw [htracker], ?_⟩
  intro entity hentity
  simp only [ChangeTracker.acceptAllChanges, htracker, List.nil_append, List.mem_append,
    List.mem_map, List.mem_filter] at hentity
  -- an entry that stays and one that goes have both been cleared before
  rcases hentity with ⟨-, ⟨-, ⟨⟨entry, hentry, rfl⟩, -⟩, rfl⟩, rfl⟩ |
    ⟨-, ⟨⟨entry, hentry, rfl⟩, -⟩, rfl⟩
  · exact ⟨entry, hentry, rfl⟩
  · exact ⟨entry, hentry, rfl⟩

/-- `Commit` and `CommitAsync` agree exactly if no aggregate that is being deleted has events. -/
theorem commitsAgree_iff (u : UnitOfWork S P O) (entries : List (EntityEntry S P)) :
    CommitsAgree { u with changeTracker := ⟨entries, []⟩ } ↔
      ∀ entry ∈ entries, entry.state = .deleted → entry.entity.getDomainEvents = [] := by
  obtain ⟨hevents, hentities⟩ :=
    commit_base_spec { u with changeTracker := ⟨entries, []⟩ } entries rfl
  obtain ⟨hevents', hentities'⟩ :=
    commitAsync_base_spec { u with changeTracker := ⟨entries, []⟩ } entries rfl
  unfold CommitsAgree
  rw [hevents, hevents', hentities]
  constructor
  · rintro ⟨-, hempty, -⟩ entry hentry hstate
    refine hempty entry.entity (List.mem_append_right _ (List.mem_map_of_mem ?_))
    simp [hentry, hstate]
  · intro hdeleted
    refine ⟨?_, ?_, ?_⟩
    · rw [flatMap_filter_not_deleted hdeleted]
    · intro entity hentity
      rcases List.mem_append.1 hentity with hmem | hmem
      · obtain ⟨entry, -, rfl⟩ := List.mem_map.1 hmem
        exact getDomainEvents_clearDomainEvents _
      · obtain ⟨entry, hentry, rfl⟩ := List.mem_map.1 hmem
        obtain ⟨hentry, hstate⟩ := List.mem_filter.1 hentry
        exact hdeleted entry hentry (of_decide_eq_true hstate)
    · intro entity hentity
      obtain ⟨entry, -, rfl⟩ := hentities' entity hentity
      exact getDomainEvents_clearDomainEvents _

/-- A deleted aggregate with one event: `CommitAsync` publishes the event, `Commit` does not. -/
theorem commits_disagree_on_deleted :
    ¬CommitsAgree (⟨.new, ⟨[⟨.deleted, .aggregateRoot ⟨"Account", 0, [⟨1, "Account", 5⟩]⟩⟩], []⟩,
      none, [], [], []⟩ : UnitOfWork Nat Nat Nat) := by
  intro hagree
  have hlength := hagree.1.length_eq
  exact absurd hlength (by decide)

end Agreement

end IFramework.EntityFrameworkCore
