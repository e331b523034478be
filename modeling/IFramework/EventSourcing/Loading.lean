import IFramework.EventSourcing.ConsumeMessage
import IFramework.EventSourcing.Stream

/-!
# Loading an aggregate

`load` is `GetByKeyAsync` with what each store holds at the moment it is read: other workers may
append events between the read of the snapshot and the read of the events. It returns the aggregate
together with the entry the repository records and what is written back to the two caches.

The replay from a snapshot of any version is the replay of the whole stream (`load_eq_replayAll`).
`getByKeyAsync_eq_load` and `workStep_readEvents` say that this is what a call, and a worker of the
system, do.
-/

namespace IFramework.EventSourcing

/-- What the stores hold for an aggregate when `GetByKeyAsync` reads them. -/
structure Reads (S T : Type) where
  memory : Option (Stored S)
  snapshot : Option (Stored S)
  redis : Redis T

/-- What `GetByKeyAsync` returns, the entry in `_local`, the aggregate that is passed to
`_inMemoryStore.Set`, and the one that is passed to `_snapshotStore.UpdateAsync`. -/
structure Loaded (S P : Type) where
  aggregate : Option (AggregateRoot S P)
  entry : Option (EntityEntry S P)
  set : Option (Stored S)
  update : Option (Stored S)

section Load

variable {S P R T : Type} (type : AggregateType S P) (json : Json T P R)

/-- `GetByKeyAsync`; `entry` is the one in `_local`. -/
def load [DecidableEq T] (entry : Option (EntityEntry S P)) (key : String) (reads : Reads S T) :
    Except (Exn P) (Loaded S P) :=
  match entry with
  | some e => .ok ⟨some e.entity, some e, none, none⟩
  | none =>
    match reads.memory with
    | some a => .ok ⟨some (.load a), some (.loaded a), none, none⟩
    | none =>
      match getEvents json reads.redis key (fromVersion reads.snapshot + 1) none with
      | .error _ => .error redisServerException
      | .ok events =>
        match rebuild type reads.snapshot events with
        | none => .ok ⟨none, none, none, none⟩
        | some a =>
          .ok ⟨some (.load a), some (.loaded a), some a,
            if a.version > fromVersion reads.snapshot then some a else none⟩

/-- The batches, replayed one after the other on a new instance. -/
def replayAll (bs : List (Batch S P)) : AggregateRoot S P :=
  bs.foldl (fun a b => a.replay type b.events) (.createInstance type)

/-- The sorted set of the aggregate holds these batches; there is no empty sorted set. -/
def IsStream (db : Redis T) (key : String) (bs : List (Batch S P)) : Prop :=
  db (aggregateEventKey key) = if bs = [] then none else some (.zset (members json bs))

variable {type json} {bs : List (Batch S P)}

/-! ## The whole stream -/

theorem replayAll_concat (b : Batch S P) :
    replayAll type (bs ++ [b]) = (replayAll type bs).replay type b.events := by
  simp [replayAll]

theorem AggregateRoot.replay_eq_load (a : AggregateRoot S P) (hnew : a.newVersion = 0)
    (hqueue : a.eventQueue = []) (events : List (Event P)) :
    a.replay type events = .load (a.replay type events).store := by
  unfold replay
  generalize (events.insertionSort fun e e' => e.version ≤ e'.version) = events
  induction events generalizing a with
  | nil => cases a; simp_all [load, store]
  | cons e es ih => exact ih (a.handleEvent type e) hnew hqueue

/-- The whole stream leads to the aggregate after its batches. -/
theorem replayAll_eq_load (h : Versioned bs) :
    replayAll type bs = .load (afterBatches type bs) := by
  induction bs using List.reverseRecOn with
  | nil => rfl
  | append_singleton bs b ih =>
    have hbs : Versioned bs := by simpa using h.take bs.length
    have hstore : ((replayAll type bs).replay type b.events).store =
        afterBatches type (bs ++ [b]) := by
      have hsorted : (b.events.Pairwise fun e e' => e.version ≤ e'.version) := by
        simpa using h.pairwise
      rw [AggregateRoot.replay, List.Pairwise.insertionSort_eq hsorted, ih hbs]
      simpa using AggregateRoot.store_replay_batches (a := .load (afterBatches type bs)) h rfl
    rw [replayAll_concat, ← hstore]
    refine AggregateRoot.replay_eq_load _ ?_ ?_ _
    · rw [ih hbs]
      rfl
    · rw [ih hbs]
      rfl

/-! ## From a snapshot -/

variable {key : String} {reads : Reads S T}

theorem IsStream.getEvents {bs bs' : List (Batch S P)} {db : Redis T}
    (h : IsStream json db key (bs ++ bs')) :
    getEvents json db key (bs.length + 1) none = .ok (bs'.flatMap Batch.events) := by
  have hrepresents : Represents json db key (bs ++ bs') := by
    unfold Represents
    unfold IsStream at h
    split
    · next hnil =>
      intro ms hms
      rw [h, if_pos hnil] at hms
      cases hms
    · next hne => rw [h, if_neg hne]
  rcases getEvents_of_represents hrepresents with hget | ⟨hnil, e, hget⟩
  · exact hget
  · rw [IsStream, if_pos hnil] at h
    simp [EventSourcing.getEvents, zrangebyscore, h] at hget

variable [DecidableEq T]

/-- When the in-memory store has no entry for an aggregate and the snapshot store has none, or one
that was taken after any number of the batches that are in the stream when it is read,
`GetByKeyAsync` returns what the whole stream leads to when it is replayed on a new instance, and
`null` if there are neither batches nor a snapshot. Its version is the number of batches, which is
below `2^31 - 1`, and so is the version of the entry that is recorded. -/
theorem load_eq_replayAll (hversioned : Versioned bs) (hstream : IsStream json reads.redis key bs)
    (hmemory : reads.memory = none)
    (hsnapshot : reads.snapshot = none ∨
      ∃ v ≤ bs.length, reads.snapshot = some (replayAll type (bs.take v)).store) :
    ∃ loaded, load type json none key reads = .ok loaded ∧
      loaded.aggregate =
        (if bs = [] ∧ reads.snapshot = none then none else some (replayAll type bs)) ∧
      (replayAll type bs).version = bs.length ∧
      loaded.entry.map EntityEntry.version = loaded.aggregate.map fun _ => bs.length := by
  obtain ⟨bs₁, bs₂, rfl, hversion, hsnapshot⟩ : ∃ bs₁ bs₂, bs = bs₁ ++ bs₂ ∧
      fromVersion reads.snapshot = bs₁.length ∧
      ((reads.snapshot = none ∧ bs₁ = []) ∨
        reads.snapshot = some (afterBatches type bs₁)) := by
    rcases hsnapshot with hnone | ⟨v, hv, hsome⟩
    · exact ⟨[], bs, rfl, by simp [hnone, fromVersion], .inl ⟨hnone, rfl⟩⟩
    · rw [replayAll_eq_load (hversioned.take v)] at hsome
      exact ⟨bs.take v, bs.drop v, (List.take_append_drop v bs).symm,
        by rw [hsome]; rfl, .inr hsome⟩
  have hevents := hstream.getEvents
  have hrebuild := rebuild_of_batches type hversioned hsnapshot
  rw [replayAll_eq_load hversioned]
  by_cases hnone : bs₁ ++ bs₂ = [] ∧ reads.snapshot = none
  · rw [if_pos hnone.symm] at hrebuild
    refine ⟨⟨none, none, none, none⟩, ?_, by rw [if_pos hnone], rfl, rfl⟩
    simp [load, hmemory, hversion, hevents, hrebuild]
  · rw [if_neg (fun h => hnone h.symm)] at hrebuild
    have hlength : (afterBatches type (bs₁ ++ bs₂)).version = (bs₁ ++ bs₂).length := rfl
    generalize afterBatches type (bs₁ ++ bs₂) = a at hrebuild hlength
    refine ⟨⟨some (.load a), some (.loaded a), some a,
      if a.version > bs₁.length then some a else none⟩, ?_, by rw [if_neg hnone], hlength, ?_⟩
    · simp [load, hmemory, hversion, hevents, hrebuild]
    · exact congrArg some hlength

/-- Two batches, the first with two events and in the snapshot already. -/
theorem load_of_two_batches :
    ∃ (type : AggregateType Nat Nat) (bs : List (Batch Nat Nat)) (loaded : Loaded Nat Nat),
      bs.map (fun b => b.events.length) = [2, 1] ∧
      load type (Json.plain Nat Nat) none "k"
        ⟨none, some (replayAll type (bs.take 1)).store,
          fun _ => some (.zset (members (Json.plain Nat Nat) bs))⟩ = .ok loaded ∧
      loaded.aggregate = some (replayAll type bs) ∧
      loaded.entry.map EntityEntry.version = some 2 := by
  let type : AggregateType Nat Nat := ⟨0, fun n e => n + e.payload⟩
  let bs : List (Batch Nat Nat) :=
    [⟨"c", none, [⟨1, 5⟩, ⟨1, 6⟩]⟩, ⟨"d", some ⟨11, 1⟩, [⟨2, 7⟩]⟩]
  have hversioned : Versioned bs := by
    intro i b hb
    rcases i with _ | _ | i
    · cases hb
      decide
    · cases hb
      decide
    · cases hb
  let reads : Reads Nat (Obj Nat Nat ⊕ Event Nat) :=
    ⟨none, some (replayAll type (bs.take 1)).store,
      fun _ => some (.zset (members (Json.plain Nat Nat) bs))⟩
  have hstream : IsStream (Json.plain Nat Nat) reads.redis "k" bs := rfl
  have hsnapshot : reads.snapshot = none ∨
      ∃ v ≤ bs.length, reads.snapshot = some (replayAll type (bs.take v)).store :=
    .inr ⟨1, by decide, rfl⟩
  obtain ⟨loaded, hload, haggregate, -, hentry⟩ :=
    load_eq_replayAll hversioned hstream rfl hsnapshot
  rw [if_neg (by simp)] at haggregate
  exact ⟨type, bs, loaded, rfl, hload, haggregate, by rw [hentry, haggregate]; rfl⟩

/-! ## The system -/

/-- The stores after `GetByKeyAsync` has written back what it has loaded. -/
def Stores.writeBack (st : Stores S T) (key : String) (loaded : Loaded S P) : Stores S T where
  redis := st.redis
  snapshots :=
    match loaded.update with
    | some a => Function.update st.snapshots key (some a)
    | none => st.snapshots
  memory :=
    match loaded.set with
    | some a => Function.update st.memory key (some a)
    | none => st.memory

/-- A call that no other worker interferes with reads all stores in one state. -/
theorem getByKeyAsync_eq_load (st : Stores S T) :
    getByKeyAsync type json key st =
      match load type json none key ⟨st.memory key, st.snapshots key, st.redis⟩ with
      | .error e => (st, .error e)
      | .ok loaded =>
        (st.writeBack key loaded, .ok (loaded.aggregate.map AggregateRoot.store)) := by
  unfold getByKeyAsync load
  cases hmemory : st.memory key with
  | some a => rfl
  | none =>
    dsimp only
    cases getEvents json st.redis key (fromVersion (st.snapshots key) + 1) none with
    | error e => rfl
    | ok events =>
      dsimp only
      cases rebuild type (st.snapshots key) events with
      | none => rfl
      | some a =>
        dsimp only [Stores.writeBack]
        by_cases hnew : a.version > fromVersion (st.snapshots key)
        · simp [hnew, AggregateRoot.load, AggregateRoot.store]
        · simp [hnew, AggregateRoot.load, AggregateRoot.store]

/-- A worker that has read the snapshot goes on with what is in the event store when it reads that,
whatever was appended in the meantime. -/
theorem workStep_readEvents {s : State S P R T} {w : Nat} {snapshot : Option (Stored S)}
    {next : Option (Stored S) → Handler S P R}
    (hpoint : (s.workers w).point = .readEvents snapshot next) :
    workStep type json s w =
      some (s.setWorker w
        (match load type json none (s.workers w).context.key ⟨none, snapshot, s.redis⟩ with
          | .error e => (s.workers w).thrown e
          | .ok loaded =>
            { s.workers w with
              point :=
                match loaded.set with
                | some a => .setMemory a (fromVersion snapshot) next
                | none => .handle (next none) })) := by
  simp only [workStep, hpoint, load]
  cases getEvents json s.redis (s.workers w).context.key (fromVersion snapshot + 1) none with
  | error e => rfl
  | ok events =>
    dsimp only
    cases rebuild type snapshot events with
    | none => rfl
    | some a => rfl

end Load

end IFramework.EventSourcing
