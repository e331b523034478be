import Mathlib.Algebra.Group.Int.Defs
import Mathlib.Data.List.Chain
import Mathlib.Logic.Function.Iterate

/-!
# Aggregates of the Entity Framework

An `AggregateRoot` keeps the domain events it has raised in a queue, until a unit of work reads and
clears them. A `VersionedAggregateRoot` stamps its events with the next version, which it computes
once and keeps in `_newVersion`; only `Rollback` resets that field. Versions are 32-bit integers.
-/

namespace IFramework.EntityFrameworkCore

/-- An `IAggregateRootEvent`. -/
structure AggregateRootEvent (P : Type) where
  version : Int32
  aggregateRootName : String
  payload : P
  deriving DecidableEq

/-- An `AggregateRoot`, with the state that its handlers change. -/
structure AggregateRoot (S P : Type) where
  aggregateRootName : String
  state : S
  eventQueue : List (AggregateRootEvent P)
  deriving DecidableEq

namespace AggregateRoot

variable {S P : Type}

/-- `GetDomainEvents`. -/
def getDomainEvents (root : AggregateRoot S P) : List (AggregateRootEvent P) := root.eventQueue

/-- `ClearDomainEvents`. -/
def clearDomainEvents (root : AggregateRoot S P) : AggregateRoot S P :=
  { root with eventQueue := [] }

/-- `Rollback`. -/
def rollback (root : AggregateRoot S P) : AggregateRoot S P := root.clearDomainEvents

/-- `OnEvent`; `handle` are the `Handle` methods of the aggregate. -/
def onEvent (handle : S → AggregateRootEvent P → S) (root : AggregateRoot S P)
    (event : AggregateRootEvent P) : AggregateRoot S P :=
  { root with
    state := handle root.state event
    eventQueue :=
      root.eventQueue ++ [{ event with aggregateRootName := root.aggregateRootName }] }

end AggregateRoot

/-- A `VersionedAggregateRoot`; `newVersion` is the field `_newVersion`. -/
structure VersionedAggregateRoot (S P : Type) extends AggregateRoot S P where
  newVersion : Int32
  version : Int32

namespace VersionedAggregateRoot

variable {S P : Type}

/-- The property `NewVersion`, with what it does to its field. -/
def getNewVersion (root : VersionedAggregateRoot S P) : Int32 × VersionedAggregateRoot S P :=
  let newVersion := if root.newVersion = 0 then root.version + 1 else root.newVersion
  (newVersion, { root with newVersion := newVersion })

/-- `Rollback`. -/
def rollback (root : VersionedAggregateRoot S P) : VersionedAggregateRoot S P :=
  { root with newVersion := 0, toAggregateRoot := root.toAggregateRoot.rollback }

/-- `OnEvent`: the property `NewVersion` is read twice. -/
def onEvent (handle : S → AggregateRootEvent P → S) (root : VersionedAggregateRoot S P)
    (event : AggregateRootEvent P) : VersionedAggregateRoot S P :=
  let (newVersion, root) := root.getNewVersion
  let event := { event with version := newVersion }
  let (newVersion, root) := root.getNewVersion
  let root := { root with version := newVersion }
  { root with toAggregateRoot := root.toAggregateRoot.onEvent handle event }

/-- What a unit of work does to an aggregate when it commits: the events, and the aggregate
without them. -/
def commit (root : VersionedAggregateRoot S P) :
    List (AggregateRootEvent P) × VersionedAggregateRoot S P :=
  (root.getDomainEvents, { root with toAggregateRoot := root.toAggregateRoot.clearDomainEvents })

end VersionedAggregateRoot

/-- A batch that is committed: calls of `Rollback`, and then one event or more. -/
structure Batch (P : Type) where
  rollbacks : Nat
  first : AggregateRootEvent P
  rest : List (AggregateRootEvent P)

section Batches

variable {S P : Type} (handle : S → AggregateRootEvent P → S)

/-- A batch: the events that its commit gets, and the aggregate after it. -/
def commitBatch (root : VersionedAggregateRoot S P) (batch : Batch P) :
    List (AggregateRootEvent P) × VersionedAggregateRoot S P :=
  ((batch.first :: batch.rest).foldl (VersionedAggregateRoot.onEvent handle)
    (VersionedAggregateRoot.rollback^[batch.rollbacks] root)).commit

/-- The events of each batch, and the version after it. -/
def commitBatches : VersionedAggregateRoot S P → List (Batch P) →
    List (List (AggregateRootEvent P) × Int32)
  | _, [] => []
  | root, batch :: batches =>
    let (events, root) := commitBatch handle root batch
    (events, root.version) :: commitBatches root batches

/-- All events of the `i`-th batch carry the version `v + i`, and the version increases with every
batch. -/
def VersionAdvances (root : VersionedAggregateRoot S P) (batches : List (Batch P)) : Prop :=
  (∀ (i : Nat) commit, (commitBatches handle root batches)[i]? = some commit →
      ∀ e ∈ commit.1, e.version.toInt = root.version.toInt + (i + 1)) ∧
    (root.version :: (commitBatches handle root batches).map Prod.snd).IsChain (· < ·)

/-- `Rollback` has been called since the last commit, unless the version has just become 0; a batch
that makes it 0 has one event; and the version does not overflow. -/
def RenewsVersion (v : Int) (batches : List (Batch P)) : Prop :=
  ∀ (i : Nat) batch, batches[i]? = some batch →
    v + (i + 1) < 2 ^ 31 ∧ (v + (i + 1) = 0 → batch.rest = []) ∧
      (0 < i → v + i ≠ 0 → 0 < batch.rollbacks)

end Batches

/-! ## One batch -/

section Batch

variable {S P : Type} {handle : S → AggregateRootEvent P → S} {root : VersionedAggregateRoot S P}

/-- The version that the next event gets. -/
def VersionedAggregateRoot.nextVersion (root : VersionedAggregateRoot S P) : Int32 :=
  root.getNewVersion.1

theorem onEvent_spec (handle : S → AggregateRootEvent P → S) (root : VersionedAggregateRoot S P)
    (event : AggregateRootEvent P) :
    (root.onEvent handle event).newVersion = root.nextVersion ∧
      (root.onEvent handle event).version = root.nextVersion ∧
      (root.onEvent handle event).eventQueue.map AggregateRootEvent.version =
        root.eventQueue.map AggregateRootEvent.version ++ [root.nextVersion] := by
  simp only [VersionedAggregateRoot.onEvent, AggregateRoot.onEvent,
    VersionedAggregateRoot.nextVersion, VersionedAggregateRoot.getNewVersion]
  by_cases hzero : root.newVersion = 0
  · by_cases hnext : root.version + 1 = 0 <;> simp [hzero, hnext]
  · simp [hzero]

/-- Once the next version is the version, and not 0, all events get it. -/
theorem foldl_onEvent_spec (handle : S → AggregateRootEvent P → S)
    (events : List (AggregateRootEvent P))
    (hnew : root.newVersion = root.version) (hzero : root.version ≠ 0) :
    (events.foldl (VersionedAggregateRoot.onEvent handle) root).newVersion = root.version ∧
      (events.foldl (VersionedAggregateRoot.onEvent handle) root).version = root.version ∧
      (events.foldl (VersionedAggregateRoot.onEvent handle) root).eventQueue.map
          AggregateRootEvent.version =
        root.eventQueue.map AggregateRootEvent.version ++
          List.replicate events.length root.version := by
  induction events generalizing root with
  | nil => simp [hnew]
  | cons event events ih =>
    have hnext : root.nextVersion = root.version := by
      simp [VersionedAggregateRoot.nextVersion, VersionedAggregateRoot.getNewVersion, hnew, hzero]
    obtain ⟨hnew', hversion', hqueue'⟩ := onEvent_spec handle root event
    rw [hnext] at hnew' hversion' hqueue'
    obtain ⟨h₁, h₂, h₃⟩ := ih (hnew'.trans hversion'.symm) (by rw [hversion']; exact hzero)
    rw [hversion'] at h₁ h₂ h₃
    refine ⟨h₁, h₂, ?_⟩
    rw [List.foldl_cons, h₃, hqueue', List.append_assoc, List.length_cons,
      List.replicate_succ, List.singleton_append]

/-- The version that the first event of a batch gets. -/
def VersionedAggregateRoot.batchVersion (root : VersionedAggregateRoot S P) (batch : Batch P) :
    Int32 :=
  (VersionedAggregateRoot.rollback^[batch.rollbacks] root).nextVersion

theorem batchVersion_eq (root : VersionedAggregateRoot S P) (batch : Batch P) :
    root.batchVersion batch =
      if root.newVersion = 0 ∨ 0 < batch.rollbacks then root.version + 1 else root.newVersion := by
  unfold VersionedAggregateRoot.batchVersion
  cases hrollbacks : batch.rollbacks with
  | zero =>
    by_cases hnew : root.newVersion = 0 <;>
      simp [VersionedAggregateRoot.nextVersion, VersionedAggregateRoot.getNewVersion, hnew]
  | succ n =>
    have hiterate : ∀ m, (VersionedAggregateRoot.rollback^[m] root).version = root.version := by
      intro m
      induction m with
      | zero => rfl
      | succ m ih =>
        rw [Function.iterate_succ_apply']
        exact ih
    rw [Function.iterate_succ_apply']
    simp [VersionedAggregateRoot.nextVersion, VersionedAggregateRoot.getNewVersion,
      VersionedAggregateRoot.rollback, hiterate]

theorem eventQueue_iterate_rollback (hqueue : root.eventQueue = []) (n : Nat) :
    (VersionedAggregateRoot.rollback^[n] root).eventQueue = [] := by
  cases n with
  | zero => exact hqueue
  | succ n =>
    rw [Function.iterate_succ_apply']
    rfl

/-- A batch whose first event does not get the version 0, or that has no other event. -/
theorem commitBatch_spec (handle : S → AggregateRootEvent P → S) (hqueue : root.eventQueue = [])
    (batch : Batch P) (hbatch : root.batchVersion batch ≠ 0 ∨ batch.rest = []) :
    (commitBatch handle root batch).1.map AggregateRootEvent.version =
        List.replicate (batch.rest.length + 1) (root.batchVersion batch) ∧
      (commitBatch handle root batch).2.version = root.batchVersion batch ∧
      (commitBatch handle root batch).2.newVersion = root.batchVersion batch := by
  obtain ⟨hnew, hversion, hevents⟩ :=
    onEvent_spec handle (VersionedAggregateRoot.rollback^[batch.rollbacks] root) batch.first
  rw [eventQueue_iterate_rollback hqueue] at hevents
  simp only [commitBatch, VersionedAggregateRoot.commit, AggregateRoot.getDomainEvents,
    List.foldl_cons]
  rcases hbatch with hzero | hrest
  · obtain ⟨h₁, h₂, h₃⟩ := foldl_onEvent_spec handle batch.rest
      (hnew.trans hversion.symm) (by rw [hversion]; exact hzero)
    rw [hversion] at h₁ h₂ h₃
    refine ⟨?_, h₂, h₁⟩
    rw [h₃, hevents]
    rfl
  · rw [hrest]
    exact ⟨hevents, hversion, hnew⟩

/-- A batch of several events whose first one gets the version 0: the others get the version 1. -/
theorem commitBatch_of_zero (handle : S → AggregateRootEvent P → S) (hqueue : root.eventQueue = [])
    (batch : Batch P) (hzero : root.batchVersion batch = 0) (hrest : batch.rest ≠ []) :
    (commitBatch handle root batch).1.map AggregateRootEvent.version =
      0 :: List.replicate batch.rest.length 1 := by
  obtain ⟨hnew, hversion, hevents⟩ :=
    onEvent_spec handle (VersionedAggregateRoot.rollback^[batch.rollbacks] root) batch.first
  have hnext : (VersionedAggregateRoot.rollback^[batch.rollbacks] root).nextVersion = 0 := hzero
  rw [hnext] at hnew hversion hevents
  rw [eventQueue_iterate_rollback hqueue] at hevents
  obtain ⟨event, events, hcons⟩ := List.exists_cons_of_ne_nil hrest
  simp only [commitBatch, VersionedAggregateRoot.commit, AggregateRoot.getDomainEvents,
    List.foldl_cons, hcons]
  generalize VersionedAggregateRoot.onEvent handle
    (VersionedAggregateRoot.rollback^[batch.rollbacks] root) batch.first = root₁ at *
  have hone : root₁.nextVersion = 1 := by
    simp [VersionedAggregateRoot.nextVersion, VersionedAggregateRoot.getNewVersion, hnew, hversion]
  obtain ⟨hnew₁, hversion₁, hevents₁⟩ := onEvent_spec handle root₁ event
  rw [hone] at hnew₁ hversion₁ hevents₁
  obtain ⟨-, -, hfold⟩ := foldl_onEvent_spec handle events (hnew₁.trans hversion₁.symm)
    (by rw [hversion₁]; decide)
  rw [hfold, hversion₁, hevents₁, hevents, List.length_cons, List.replicate_succ]
  rfl

end Batch

/-! ## Every history -/

section Histories

variable {S P : Type} {handle : S → AggregateRootEvent P → S} {root : VersionedAggregateRoot S P}

theorem toInt_add_one (v : Int32) :
    (v + 1).toInt = if v.toInt + 1 < 2 ^ 31 then v.toInt + 1 else -2 ^ 31 := by
  have hlow := v.le_toInt
  have hhigh := v.toInt_lt
  rw [Int32.toInt_add, Int32.toInt_one]
  split <;> simp only [Int.bmod_def] <;> omega

/-- The commit of a batch gets the next version on all its events exactly if the next version has
been renewed, does not overflow, and is not 0 on a batch of several events. -/
theorem commitBatch_iff (handle : S → AggregateRootEvent P → S) (hqueue : root.eventQueue = [])
    (hnew : root.newVersion = 0 ∨ root.newVersion = root.version) (batch : Batch P) :
    (∀ e ∈ (commitBatch handle root batch).1, e.version.toInt = root.version.toInt + 1) ↔
      root.version.toInt + 1 < 2 ^ 31 ∧ (root.version.toInt + 1 = 0 → batch.rest = []) ∧
        (root.newVersion ≠ 0 → 0 < batch.rollbacks) := by
  have hversions : (∀ e ∈ (commitBatch handle root batch).1,
      e.version.toInt = root.version.toInt + 1) ↔
        ∀ x ∈ (commitBatch handle root batch).1.map AggregateRootEvent.version,
          x.toInt = root.version.toInt + 1 := by
    simp
  have hnext := toInt_add_one root.version
  rw [hversions]
  by_cases hrenewed : root.newVersion = 0 ∨ 0 < batch.rollbacks
  · have hbatch : root.batchVersion batch = root.version + 1 := by
      rw [batchVersion_eq, if_pos hrenewed]
    have hthird : root.newVersion ≠ 0 → 0 < batch.rollbacks :=
      fun hne => hrenewed.resolve_left hne
    by_cases hspec : root.batchVersion batch ≠ 0 ∨ batch.rest = []
    · rw [(commitBatch_spec handle hqueue batch hspec).1, hbatch]
      constructor
      · intro hall
        have hfirst := hall (root.version + 1) (by simp)
        have hlt : root.version.toInt + 1 < 2 ^ 31 := by
          by_contra hge
          have hhigh := root.version.toInt_lt
          rw [if_neg hge] at hnext
          omega
        refine ⟨hlt, ?_, hthird⟩
        intro hzero
        refine hspec.resolve_left (fun hne => hne ?_)
        rw [hbatch, ← Int32.toInt_inj, hfirst, hzero]
        rfl
      · rintro ⟨hlt, -, -⟩ x hx
        rw [List.eq_of_mem_replicate hx, hnext, if_pos hlt]
    · obtain ⟨hzero, hrest⟩ := not_or.1 hspec
      have hzero := not_not.1 hzero
      rw [commitBatch_of_zero handle hqueue batch hzero hrest]
      constructor
      · intro hall
        have h₀ := hall 0 (by simp)
        have h₁ := hall 1 (by simp [List.length_pos_iff.2 hrest, Nat.ne_of_gt])
        rw [← h₁] at h₀
        exact absurd h₀ (by decide)
      · rintro ⟨hlt, honly, -⟩
        refine absurd (honly ?_) hrest
        rw [if_pos hlt, ← hbatch, hzero] at hnext
        exact hnext.symm
  · -- the aggregate still has the next version of the last batch
    obtain ⟨hne, hno⟩ := not_or.1 hrenewed
    have hbatch : root.batchVersion batch = root.version := by
      rw [batchVersion_eq, if_neg hrenewed, hnew.resolve_left hne]
    have hspec : root.batchVersion batch ≠ 0 := by
      rw [hbatch, ← hnew.resolve_left hne]
      exact hne
    rw [(commitBatch_spec handle hqueue batch (.inl hspec)).1, hbatch]
    constructor
    · intro hall
      have hfirst := hall root.version (by simp)
      omega
    · rintro ⟨-, -, hrollback⟩
      exact absurd (hrollback hne) hno

/-- The aggregate after a batch whose events all have the next version. -/
theorem commitBatch_next (hqueue : root.eventQueue = [])
    (hnew : root.newVersion = 0 ∨ root.newVersion = root.version) {batch : Batch P}
    (hevents : ∀ e ∈ (commitBatch handle root batch).1,
      e.version.toInt = root.version.toInt + 1) :
    (commitBatch handle root batch).2.version.toInt = root.version.toInt + 1 ∧
      (commitBatch handle root batch).2.newVersion =
        (commitBatch handle root batch).2.version := by
  obtain ⟨hlt, hrest, hrollback⟩ := (commitBatch_iff handle hqueue hnew batch).1 hevents
  have hrenewed : root.newVersion = 0 ∨ 0 < batch.rollbacks := by
    by_cases hzero : root.newVersion = 0
    · exact .inl hzero
    · exact .inr (hrollback hzero)
  have hbatch : (root.batchVersion batch).toInt = root.version.toInt + 1 := by
    rw [batchVersion_eq, if_pos hrenewed, toInt_add_one, if_pos hlt]
  have hspec : root.batchVersion batch ≠ 0 ∨ batch.rest = [] := by
    by_cases hzero : root.batchVersion batch = 0
    · refine .inr (hrest ?_)
      rw [← hbatch, hzero]
      rfl
    · exact .inl hzero
  obtain ⟨-, hversion, hnew'⟩ := commitBatch_spec handle hqueue batch hspec
  exact ⟨by rw [hversion, hbatch], hnew'.trans hversion.symm⟩

theorem versionAdvances_cons (hqueue : root.eventQueue = [])
    (hnew : root.newVersion = 0 ∨ root.newVersion = root.version) (batch : Batch P)
    (batches : List (Batch P)) :
    VersionAdvances handle root (batch :: batches) ↔
      (∀ e ∈ (commitBatch handle root batch).1, e.version.toInt = root.version.toInt + 1) ∧
        VersionAdvances handle (commitBatch handle root batch).2 batches := by
  constructor
  · rintro ⟨hevents, hchain⟩
    have hfirst := hevents 0 _ rfl
    simp only [Int.natCast_zero, Int.zero_add] at hfirst
    obtain ⟨hversion, -⟩ := commitBatch_next hqueue hnew hfirst
    refine ⟨hfirst, ?_, (List.isChain_cons_cons.1 hchain).2⟩
    intro i commit hcommit e he
    rw [hevents (i + 1) commit hcommit e he, hversion]
    omega
  · rintro ⟨hfirst, hevents, hchain⟩
    obtain ⟨hversion, -⟩ := commitBatch_next hqueue hnew hfirst
    refine ⟨?_, List.isChain_cons_cons.2 ⟨?_, hchain⟩⟩
    · intro i commit hcommit e he
      cases i with
      | zero =>
        cases hcommit
        rw [hfirst e he]
        omega
      | succ i =>
        rw [hevents i commit hcommit e he, hversion]
        omega
    · show root.version < (commitBatch handle root batch).2.version
      rw [Int32.lt_iff_toInt_lt, hversion]
      omega

/-- The induction: the first batch needs a `Rollback` too if the next version is that of an earlier
batch. -/
theorem versionAdvances_iff_of_newVersion (hqueue : root.eventQueue = [])
    (hnew : root.newVersion = 0 ∨ root.newVersion = root.version) (batches : List (Batch P)) :
    VersionAdvances handle root batches ↔
      ∀ (i : Nat) batch, batches[i]? = some batch →
        root.version.toInt + (i + 1) < 2 ^ 31 ∧
          (root.version.toInt + (i + 1) = 0 → batch.rest = []) ∧
          (0 < i ∨ root.newVersion ≠ 0 → root.version.toInt + i ≠ 0 → 0 < batch.rollbacks) := by
  induction batches generalizing root with
  | nil =>
    simp [VersionAdvances, commitBatches]
  | cons batch batches ih =>
    rw [versionAdvances_cons hqueue hnew]
    constructor
    · rintro ⟨hfirst, hrest⟩
      obtain ⟨hversion, hnew'⟩ := commitBatch_next hqueue hnew hfirst
      have hbatches := (ih rfl (.inr hnew')).1 hrest
      obtain ⟨hlt, hzero, hrollback⟩ := (commitBatch_iff handle hqueue hnew batch).1 hfirst
      intro i batch' hbatch'
      cases i with
      | zero =>
        cases hbatch'
        refine ⟨by simpa using hlt, by simpa using hzero, ?_⟩
        rintro (hpos | hne) -
        · exact absurd hpos (Nat.lt_irrefl 0)
        · exact hrollback hne
      | succ i =>
        obtain ⟨h₁, h₂, h₃⟩ := hbatches i batch' hbatch'
        rw [hversion] at h₁ h₂ h₃
        refine ⟨by omega, fun hsum => h₂ (by omega), fun _ hsum => h₃ ?_ (by omega)⟩
        by_cases hi : 0 < i
        · exact .inl hi
        · refine .inr fun hzero => hsum ?_
          rw [hnew'.symm, hzero, Int32.toInt_zero] at hversion
          omega
    · intro hall
      obtain ⟨hlt, hzero, hrollback⟩ := hall 0 batch rfl
      have hfirst : ∀ e ∈ (commitBatch handle root batch).1,
          e.version.toInt = root.version.toInt + 1 := by
        refine (commitBatch_iff handle hqueue hnew batch).2
          ⟨by simpa using hlt, by simpa using hzero, fun hne => hrollback (.inr hne) ?_⟩
        intro hsum
        refine hne ?_
        rw [hnew.resolve_left hne, ← Int32.toInt_inj, Int32.toInt_zero]
        simpa using hsum
      obtain ⟨hversion, hnew'⟩ := commitBatch_next hqueue hnew hfirst
      refine ⟨hfirst, (ih rfl (.inr hnew')).2 ?_⟩
      intro i batch' hbatch'
      obtain ⟨h₁, h₂, h₃⟩ := hall (i + 1) batch' hbatch'
      rw [hversion]
      refine ⟨by omega, fun hsum => h₂ (by omega), fun _ hsum => h₃ (.inl ?_) (by omega)⟩
      exact Nat.succ_pos i

/-- An aggregate that has just been made or loaded: its version advances with every batch exactly if
`Rollback` is called between any two of them, apart from the version 0, and no version overflows. -/
theorem versionAdvances_iff_renewsVersion (handle : S → AggregateRootEvent P → S)
    (aggregateRootName : String) (state : S) (version : Int32) (batches : List (Batch P)) :
    VersionAdvances handle ⟨⟨aggregateRootName, state, []⟩, 0, version⟩ batches ↔
      RenewsVersion version.toInt batches := by
  rw [versionAdvances_iff_of_newVersion rfl (.inl rfl)]
  simp [RenewsVersion]

/-- Two batches of one event each, without a `Rollback` between them: both events get the version
1. -/
theorem version_repeated_without_rollback :
    ¬VersionAdvances (fun n e => n + e.payload) ⟨⟨"Counter", 0, []⟩, 0, 0⟩
      [⟨0, ⟨0, "", 5⟩, []⟩, ⟨0, ⟨0, "", 6⟩, []⟩] := by
  intro hadvances
  have hevents := hadvances.1 1 ([⟨1, "Counter", 6⟩], 1) (by decide) ⟨1, "Counter", 6⟩ (by simp)
  exact absurd hevents (by decide)

end Histories

end IFramework.EntityFrameworkCore
