import IFramework.EntityFrameworkCore.AggregateRoot
import IFramework.Theory.Run

/-!
# Contexts that share a row

Any number of `MsDbContext`s track a versioned aggregate of one row. A context that tracks it already
gets the tracked aggregate from `GetByKey`, and not what is in the row. `SaveChanges` updates the
columns that have changed where the version is the original one; when there is no such row, an
exception is thrown. What happens to the context then depends on the way to save: `Commit` and
`CommitAsync` of the unit of work reset it after any exception, `SaveChangesAsync` after this one, and
`SaveChanges` never. A state is one column here. The execution strategy does not retry, and when a
save throws, nothing has been committed.

No update is lost as long as no context raises an event on an aggregate that it has saved and not
loaded again (`keeps_every_update`): the aggregate keeps `_newVersion`, so that the update would not
change the version. A context whose aggregate is outdated, and is going to have another version, gets
it saved by trying again, with the same context, exactly if the exception resets the context
(`retry_saves_iff`).
-/

namespace IFramework.EntityFrameworkCore

open Machine

/-- The row of an aggregate. -/
structure Row (S : Type) where
  state : S
  version : Int32
  deriving DecidableEq

/-- An aggregate that a context tracks, with its original values, and the events since these were
read or saved. -/
structure Tracked (S P : Type) where
  root : VersionedAggregateRoot S P
  original : Row S
  pending : List (AggregateRootEvent P)

namespace Tracked

variable {S P : Type}

/-- The entry is `Modified`. -/
def modified [DecidableEq S] (t : Tracked S P) : Bool :=
  t.root.state ≠ t.original.state || t.root.version ≠ t.original.version

/-- `AcceptAllChanges`. -/
def acceptAllChanges (t : Tracked S P) : Tracked S P :=
  { t with original := ⟨t.root.state, t.root.version⟩, pending := [] }

/-- An event is raised. -/
def onEvent (handle : S → AggregateRootEvent P → S) (t : Tracked S P)
    (event : AggregateRootEvent P) : Tracked S P :=
  { t with
    root := t.root.onEvent handle event
    pending := t.pending ++ [{ event with version := t.root.nextVersion }] }

end Tracked

/-- A row, and the contexts that use it. -/
structure Table (S P : Type) where
  aggregateRootName : String
  row : Row S
  tracked : Nat → Option (Tracked S P)
  /-- The events of the updates, in their order. -/
  commits : List (List (AggregateRootEvent P))

/-- The ways to save: `Commit` and `CommitAsync` of a unit of work, and the methods of the context. -/
inductive SaveMode where
  | commit
  | saveChangesAsync
  | saveChanges
  deriving DecidableEq

namespace Table

variable {S P : Type}

inductive Action (P : Type) where
  | getByKey (i : Nat)
  | onEvent (i : Nat) (event : AggregateRootEvent P)
  /-- The changes are saved; the database may fail for another reason. -/
  | save (i : Nat) (mode : SaveMode) (fails : Bool)
  | reload (i : Nat)
  /-- The context is rolled back, or a new one takes its place. -/
  | reset (i : Nat)

def init (aggregateRootName : String) (row : Row S) : Table S P :=
  ⟨aggregateRootName, row, fun _ => none, []⟩

/-- What is tracked when the row is read. -/
def load (s : Table S P) : Tracked S P where
  root :=
    { aggregateRootName := s.aggregateRootName
      state := s.row.state
      eventQueue := []
      newVersion := 0
      version := s.row.version }
  original := s.row
  pending := []

/-- The context tracks something else. -/
def track (s : Table S P) (i : Nat) (t : Option (Tracked S P)) : Table S P :=
  { s with tracked := Function.update s.tracked i t }

theorem track_self (s : Table S P) (i : Nat) (t : Option (Tracked S P)) :
    (s.track i t).tracked i = t := by
  simp [track]

theorem track_of_ne {s : Table S P} {i j : Nat} {t : Option (Tracked S P)} (h : j ≠ i) :
    (s.track i t).tracked j = s.tracked j := by
  simp [track, Function.update_of_ne h]

variable [DecidableEq S]

/-- The update of the columns that have changed. -/
def update (s : Table S P) (t : Tracked S P) : Row S where
  state := if t.root.state = t.original.state then s.row.state else t.root.state
  version := t.root.version

/-- What is left of the tracked aggregate when it was saved: a unit of work clears the events. -/
def saved (mode : SaveMode) (t : Tracked S P) : Tracked S P :=
  match mode with
  | .commit => { t with root := t.root.commit.2 }
  | .saveChangesAsync | .saveChanges => t

/-- What is left of it when the update found no row. -/
def conflicted (mode : SaveMode) (t : Tracked S P) : Option (Tracked S P) :=
  match mode with
  | .commit | .saveChangesAsync => none
  | .saveChanges => some t

/-- What is left of it when something else was thrown. -/
def failed (mode : SaveMode) (t : Tracked S P) : Option (Tracked S P) :=
  match mode with
  | .commit => none
  | .saveChangesAsync | .saveChanges => some t

/-- Saving the changes of a context that tracks the aggregate. -/
def saveChanges (s : Table S P) (i : Nat) (mode : SaveMode) (fails : Bool) (t : Tracked S P) :
    Table S P :=
  if fails then s.track i (failed mode t)
  else if t.modified then
    if s.row.version = t.original.version then
      { s.track i (some (saved mode t.acceptAllChanges)) with
        row := s.update t
        commits := s.commits ++ [t.pending] }
    else s.track i (conflicted mode t)
  else s.track i (some (saved mode t))

variable (handle : S → AggregateRootEvent P → S)

def step (s : Table S P) : Action P → Option (Table S P)
  | .getByKey i => some (s.track i ((s.tracked i).getD s.load))
  | .onEvent i event => (s.tracked i).map fun t => s.track i (t.onEvent handle event)
  | .save i mode fails => some ((s.tracked i).elim s (s.saveChanges i mode fails))
  | .reload i => (s.tracked i).map fun _ => s.track i s.load
  | .reset i => some (s.track i none)

/-! ## No update is lost -/

/-- An event is raised on an aggregate that has been loaded or changed since it was saved. -/
def Renewed (s : Table S P) : Action P → Prop
  | .onEvent i _ => ∀ t, s.tracked i = some t →
      t.root.newVersion = 0 ∨ t.root.newVersion ≠ t.original.version
  | _ => True

instance (s : Table S P) : DecidablePred (Renewed s)
  | .onEvent i _ =>
    match h : s.tracked i with
    | none => isTrue fun t ht => by
        rw [h] at ht
        cases ht
    | some t =>
      decidable_of_iff (t.root.newVersion = 0 ∨ t.root.newVersion ≠ t.original.version)
        ⟨fun ht t' ht' => Option.some.inj (h.symm.trans ht') ▸ ht, fun hall => hall t h⟩
  | .getByKey _ => isTrue trivial
  | .save _ _ _ => isTrue trivial
  | .reload _ => isTrue trivial
  | .reset _ => isTrue trivial

/-- What a context tracks: the changes are those of the events since the original values, which are
those of the row unless the version is an earlier one. -/
structure Tracks (handle : S → AggregateRootEvent P → S) (s : Table S P) (t : Tracked S P) : Prop where
  nonneg : 0 ≤ t.original.version.toInt
  version_le : t.original.version.toInt ≤ s.row.version.toInt
  original : t.original.version = s.row.version → t.original.state = s.row.state
  state : t.root.state = t.pending.foldl handle t.original.state
  clean : t.pending = [] → t.root.version = t.original.version ∧
    (t.root.newVersion = 0 ∨ t.root.newVersion = t.original.version)
  dirty : t.pending ≠ [] → t.root.version = t.original.version + 1 ∧
    t.root.newVersion = t.original.version + 1
  stamped : ∀ e ∈ t.pending, e.version = t.original.version + 1

/-- The row holds what the updates make of the first one. -/
structure Serial (handle : S → AggregateRootEvent P → S) (row : Row S) (s : Table S P) : Prop where
  version : s.row.version.toInt = row.version.toInt + s.commits.length
  state : s.row.state = s.commits.flatten.foldl handle row.state
  stamped : ∀ (k : Nat) events, s.commits[k]? = some events →
    ∀ e ∈ events, e.version.toInt = row.version.toInt + (k + 1)
  tracks : ∀ i t, s.tracked i = some t → Tracks handle s t

section NoLostUpdate

variable {handle : S → AggregateRootEvent P → S} {row : Row S} {s s' : Table S P}

omit [DecidableEq S] in
/-- The handlers see the event with its version. -/
theorem onEvent_state (root : VersionedAggregateRoot S P) (event : AggregateRootEvent P) :
    (root.onEvent handle event).state =
      handle root.state { event with version := root.nextVersion } := by
  simp only [VersionedAggregateRoot.onEvent, AggregateRoot.onEvent,
    VersionedAggregateRoot.nextVersion, VersionedAggregateRoot.getNewVersion]

omit [DecidableEq S] in
theorem tracks_load (h : 0 ≤ s.row.version.toInt) : Tracks handle s s.load where
  nonneg := h
  version_le := Int.le_refl _
  original _ := rfl
  state := rfl
  clean _ := ⟨rfl, .inl rfl⟩
  dirty hne := absurd rfl hne
  stamped _ he := absurd he List.not_mem_nil

omit [DecidableEq S] in
theorem add_one_ne_zero_of_nonneg {v : Int32} (h : 0 ≤ v.toInt) : v + 1 ≠ 0 := by
  intro hzero
  have hint := toInt_add_one v
  rw [hzero, Int32.toInt_zero] at hint
  split at hint <;> omega

omit [DecidableEq S] in
/-- The next version of an aggregate that is renewed is the one after the original version. -/
theorem Tracks.nextVersion {t : Tracked S P} (h : Tracks handle s t)
    (hrenewed : t.root.newVersion = 0 ∨ t.root.newVersion ≠ t.original.version) :
    t.root.nextVersion = t.original.version + 1 := by
  unfold VersionedAggregateRoot.nextVersion VersionedAggregateRoot.getNewVersion
  by_cases hpending : t.pending = []
  · obtain ⟨hversion, hnew⟩ := h.clean hpending
    have hzero : t.root.newVersion = 0 := by
      rcases hnew with hzero | hsame
      · exact hzero
      · exact hrenewed.resolve_right fun hne => hne hsame
    simp only [hzero, if_true, hversion]
  · obtain ⟨-, hnew⟩ := h.dirty hpending
    have hne : t.root.newVersion ≠ 0 := hnew ▸ add_one_ne_zero_of_nonneg h.nonneg
    rw [if_neg hne, hnew]

omit [DecidableEq S] in
theorem Tracks.onEvent {t : Tracked S P} (h : Tracks handle s t)
    (hrenewed : t.root.newVersion = 0 ∨ t.root.newVersion ≠ t.original.version)
    (event : AggregateRootEvent P) : Tracks handle s (t.onEvent handle event) := by
  have hnext := h.nextVersion hrenewed
  obtain ⟨hnew, hversion, -⟩ := onEvent_spec handle t.root event
  refine ⟨h.nonneg, h.version_le, h.original, ?_, fun hnil => ?_, fun _ => ?_, fun e he => ?_⟩
  · simp only [Tracked.onEvent, onEvent_state, h.state, List.foldl_append, List.foldl_cons,
      List.foldl_nil]
  · simp [Tracked.onEvent] at hnil
  · exact ⟨hversion.trans hnext, hnew.trans hnext⟩
  · rcases List.mem_append.1 he with hold | hlast
    · exact h.stamped e hold
    · obtain rfl := List.mem_singleton.1 hlast
      exact hnext

omit [DecidableEq S] in
theorem Tracks.saved {t : Tracked S P} (h : Tracks handle s t) (mode : SaveMode) :
    Tracks handle s (saved mode t) := by
  cases mode with
  | commit => exact ⟨h.nonneg, h.version_le, h.original, h.state, h.clean, h.dirty, h.stamped⟩
  | saveChangesAsync => exact h
  | saveChanges => exact h

omit [DecidableEq S] in
theorem Serial.track (h : Serial handle row s) {i : Nat} {x : Option (Tracked S P)}
    (hx : ∀ t, x = some t → Tracks handle s t) : Serial handle row (s.track i x) where
  version := h.version
  state := h.state
  stamped := h.stamped
  tracks j t ht := by
    have hsame : ∀ {t}, Tracks handle s t → Tracks handle (s.track i x) t := fun h =>
      ⟨h.nonneg, h.version_le, h.original, h.state, h.clean, h.dirty, h.stamped⟩
    by_cases hj : j = i
    · subst hj
      rw [track_self] at ht
      exact hsame (hx t ht)
    · rw [track_of_ne hj] at ht
      exact hsame (h.tracks j t ht)

/-- The update is the next one. -/
theorem Serial.update (h : Serial handle row s) {i : Nat} {t : Tracked S P} (mode : SaveMode)
    (ht : s.tracked i = some t) (hmodified : t.modified = true)
    (hversion : s.row.version = t.original.version)
    (hshort : row.version.toInt + (s.commits.length + 1) < 2 ^ 31) :
    Serial handle row { s.track i (some (saved mode t.acceptAllChanges)) with
      row := s.update t
      commits := s.commits ++ [t.pending] } := by
  have htracks := h.tracks i t ht
  have hpending : t.pending ≠ [] := by
    intro hnil
    have hsame := htracks.state
    rw [hnil] at hsame
    have hclean := (htracks.clean hnil).1
    simp only [List.foldl_nil] at hsame
    simp [Tracked.modified, hsame, hclean] at hmodified
  obtain ⟨hnext, hnew⟩ := htracks.dirty hpending
  have hstate : (s.update t).state = t.root.state := by
    simp only [Table.update]
    split
    · next hsame => rw [hsame, htracks.original hversion.symm]
    · rfl
  have hint : t.root.version.toInt = s.row.version.toInt + 1 := by
    have hlength := h.version
    rw [hnext, ← hversion, toInt_add_one, if_pos (by omega)]
  refine ⟨?_, ?_, fun k events hk e he => ?_, fun j t' ht' => ?_⟩
  · show t.root.version.toInt = row.version.toInt + ((s.commits ++ [t.pending]).length : Nat)
    rw [List.length_append, List.length_singleton, hint, h.version]
    omega
  · show (s.update t).state = _
    rw [hstate, htracks.state, htracks.original hversion.symm, h.state, List.flatten_append,
      List.foldl_append]
    simp
  · rcases Nat.lt_trichotomy k s.commits.length with hlt | rfl | hgt
    · rw [List.getElem?_append_left hlt] at hk
      exact h.stamped k events hk e he
    · obtain rfl : t.pending = events := by simpa using hk
      rw [htracks.stamped e he, ← hnext, hint, h.version]
      omega
    · have hbound := (List.getElem?_eq_some_iff.1 hk).1
      rw [List.length_append, List.length_singleton] at hbound
      omega
  · by_cases hj : j = i
    · subst hj
      obtain rfl := Option.some.inj ((track_self s j _).symm.trans ht')
      refine Tracks.saved ?_ mode
      have hnonneg := htracks.nonneg
      rw [← hversion] at hnonneg
      exact
        { nonneg := by
            show 0 ≤ t.root.version.toInt
            omega
          version_le := Int.le_refl _
          original := fun _ => hstate.symm
          state := rfl
          clean := fun _ => ⟨rfl, .inr (hnew.trans hnext.symm)⟩
          dirty := fun hne => absurd rfl hne
          stamped := fun _ he => absurd he List.not_mem_nil }
    · have h' := h.tracks j t' ((track_of_ne hj).symm.trans ht')
      refine ⟨h'.nonneg, ?_, fun heq => ?_, h'.state, h'.clean, h'.dirty, h'.stamped⟩
      · show t'.original.version.toInt ≤ t.root.version.toInt
        have hle := h'.version_le
        omega
      · have hle := h'.version_le
        have heq : t'.original.version = t.root.version := heq
        rw [heq] at hle
        omega

theorem Serial.save (h : Serial handle row s) {i : Nat} {t : Tracked S P} (mode : SaveMode)
    (fails : Bool) (ht : s.tracked i = some t)
    (hshort : row.version.toInt + (s.saveChanges i mode fails t).commits.length < 2 ^ 31) :
    Serial handle row (s.saveChanges i mode fails t) := by
  have htracks := h.tracks i t ht
  unfold saveChanges at hshort ⊢
  split at hshort
  · next hfails =>
    rw [if_pos hfails]
    refine h.track fun t' ht' => ?_
    cases mode with
    | commit => cases ht'
    | saveChangesAsync | saveChanges =>
      obtain rfl := Option.some.inj ht'
      exact htracks
  · next hfails =>
    rw [if_neg hfails]
    split at hshort
    · next hmodified =>
      rw [if_pos hmodified]
      split at hshort
      · next hversion =>
        rw [if_pos hversion]
        refine h.update mode ht hmodified hversion ?_
        simpa [List.length_append] using hshort
      · next hversion =>
        rw [if_neg hversion]
        refine h.track fun t' ht' => ?_
        cases mode with
        | commit | saveChangesAsync => cases ht'
        | saveChanges =>
          obtain rfl := Option.some.inj ht'
          exact htracks
    · next hmodified =>
      rw [if_neg hmodified]
      refine h.track fun t' ht' => ?_
      obtain rfl := Option.some.inj ht'
      exact htracks.saved mode

/-- No step forgets an update. -/
theorem commitsPrefix_of_step {a : Action P} (hs : s.step handle a = some s') :
    s.commits <+: s'.commits := by
  cases a with
  | getByKey i =>
    cases hs
    exact List.prefix_refl _
  | onEvent i event =>
    obtain ⟨t, -, rfl⟩ := Option.map_eq_some_iff.1 hs
    exact List.prefix_refl _
  | save i mode fails =>
    cases hs
    cases s.tracked i with
    | none => exact List.prefix_refl _
    | some t =>
      simp only [Option.elim_some, saveChanges]
      split
      · exact List.prefix_refl _
      · split
        · split
          · exact List.prefix_append _ _
          · exact List.prefix_refl _
        · exact List.prefix_refl _
  | reload i =>
    obtain ⟨t, -, rfl⟩ := Option.map_eq_some_iff.1 hs
    exact List.prefix_refl _
  | reset i =>
    cases hs
    exact List.prefix_refl _

theorem Serial.step (h : Serial handle row s) (hrow : 0 ≤ row.version.toInt) {a : Action P}
    (ha : Renewed s a) (hs : s.step handle a = some s')
    (hshort : row.version.toInt + s'.commits.length < 2 ^ 31) : Serial handle row s' := by
  have hload : Tracks handle s s.load := by
    apply tracks_load
    have hversion := h.version
    omega
  cases a with
  | getByKey i =>
    cases hs
    refine h.track fun t ht => ?_
    cases hold : s.tracked i with
    | none =>
      rw [hold] at ht
      obtain rfl := Option.some.inj ht
      exact hload
    | some t' =>
      rw [hold] at ht
      obtain rfl := Option.some.inj ht
      exact h.tracks i _ hold
  | onEvent i event =>
    obtain ⟨t, ht, rfl⟩ := Option.map_eq_some_iff.1 hs
    refine h.track fun t' ht' => ?_
    obtain rfl := Option.some.inj ht'
    exact (h.tracks i t ht).onEvent (ha t ht) event
  | save i mode fails =>
    cases hs
    cases ht : s.tracked i with
    | none => exact h
    | some t =>
      rw [ht, Option.elim_some] at hshort
      exact h.save mode fails ht hshort
  | reload i =>
    obtain ⟨t, -, rfl⟩ := Option.map_eq_some_iff.1 hs
    refine h.track fun t' ht' => ?_
    obtain rfl := Option.some.inj ht'
    exact hload
  | reset i =>
    cases hs
    exact h.track fun t ht => by cases ht

/-- In every run in which no context raises an event on an aggregate that it has saved and not loaded
again, from a version that is not negative, and whose updates are too few for it to overflow: the
state of the row is what the events of all updates, in their order, make of the first one, each
update has the next version, and its events carry it. -/
theorem keeps_every_update {aggregateRootName : String} {actions : List (Action P)}
    (hrow : 0 ≤ row.version.toInt)
    (hrenewed : Along (step handle) Renewed (init aggregateRootName row) actions)
    (hrun : run (step handle) (init aggregateRootName row) actions = some s)
    (hshort : row.version.toInt + s.commits.length < 2 ^ 31) :
    s.row.state = s.commits.flatten.foldl handle row.state ∧
      s.row.version.toInt = row.version.toInt + s.commits.length ∧
      ∀ (k : Nat) events, s.commits[k]? = some events →
        ∀ e ∈ events, e.version.toInt = row.version.toInt + (k + 1) := by
  have hserial : row.version.toInt + s.commits.length < 2 ^ 31 → Serial handle row s := by
    refine Along.invariant
      (fun s : Table S P => row.version.toInt + s.commits.length < 2 ^ 31 → Serial handle row s)
      (fun s a s' h ha hs hshort => ?_) (fun _ => ?_) hrenewed hrun
    · have hle := (commitsPrefix_of_step hs).length_le
      exact (h (by omega)).step hrow ha hs hshort
    · exact
        { version := by simp [init]
          state := rfl
          stamped := by simp [init]
          tracks := fun i t ht => by cases ht }
  have h := hserial hshort
  exact ⟨h.state, h.version, h.stamped⟩

/-- The payload of an event is taken from the amount. -/
def reduce (amount : Int) (event : AggregateRootEvent Int) : Int := amount - event.payload

/-- Two contexts take one from the same amount; the second one tries again. -/
def twoReductions : List (Action Int) :=
  [.getByKey 0, .getByKey 1, .onEvent 0 ⟨0, "", 1⟩, .onEvent 1 ⟨0, "", 1⟩, .save 0 .commit false,
    .save 1 .commit false, .getByKey 1, .onEvent 1 ⟨0, "", 1⟩, .save 1 .commit false]

theorem keeps_every_update_twoReductions : ∃ s,
    run (step reduce) (init "product" ⟨20, 0⟩) twoReductions = some s ∧
      s.row.state = s.commits.flatten.foldl reduce 20 ∧ s.row.state = 18 := by
  have hfacts : (run (step reduce) (init "product" ⟨20, 0⟩) twoReductions).map
      (fun s => (s.row.state, s.commits.length)) = some (18, 2) := by decide +kernel
  obtain ⟨s, hrun, hs⟩ := Option.map_eq_some_iff.1 hfacts
  obtain ⟨hstate, hlength⟩ := Prod.mk.inj hs
  have hrenewed : Along (step reduce) Renewed (init "product" ⟨20, 0⟩) twoReductions := by
    decide +kernel
  have hshort : (0 : Int32).toInt + s.commits.length < 2 ^ 31 := by
    rw [hlength]
    decide
  exact ⟨s, hrun, (keeps_every_update (by decide) hrenewed hrun hshort).1, hstate⟩

/-- The first context saves a second time with the version it has saved before, and the second context
does not see it. -/
example : (run (step reduce) (init "product" ⟨20, 0⟩)
    [.getByKey 0, .onEvent 0 ⟨0, "", 1⟩, .save 0 .commit false, .getByKey 1, .onEvent 0 ⟨0, "", 1⟩,
      .save 0 .commit false, .onEvent 1 ⟨0, "", 1⟩, .save 1 .commit false]).map
        (fun s => (s.row.state, s.commits.length)) = some (18, 3) := by
  decide +kernel

end NoLostUpdate

/-! ## Trying again with the same context -/

section Retry

variable {handle : S → AggregateRootEvent P → S} {s s' : Table S P} {i : Nat} {t : Tracked S P}

/-- One attempt: the aggregate is looked up, raises an event and is saved. -/
def attempt (i : Nat) (mode : SaveMode) (event : AggregateRootEvent P) : List (Action P) :=
  [.getByKey i, .onEvent i event, .save i mode false]

/-- The attempts of one context, whatever the events are. -/
def attempts (i : Nat) (mode : SaveMode) (events : Nat → AggregateRootEvent P) (n : Nat) :
    List (Action P) :=
  (List.range n).flatMap fun k => attempt i mode (events k)

/-- The aggregate that an attempt saves. -/
def attempted (handle : S → AggregateRootEvent P → S) (s : Table S P) (i : Nat)
    (event : AggregateRootEvent P) : Tracked S P :=
  ((s.tracked i).getD s.load).onEvent handle event

theorem run_attempt (handle : S → AggregateRootEvent P → S) (s : Table S P) (i : Nat)
    (mode : SaveMode) (event : AggregateRootEvent P) :
    run (step handle) s (attempt i mode event) =
      some (saveChanges (s.track i (some (attempted handle s i event))) i mode false
        (attempted handle s i event)) := by
  simp [attempt, run, step, track, attempted]

omit [DecidableEq S] in
theorem attempted_version (handle : S → AggregateRootEvent P → S) (s : Table S P) (i : Nat)
    (event : AggregateRootEvent P) : (attempted handle s i event).root.version =
      ((s.tracked i).getD s.load).root.nextVersion :=
  (onEvent_spec handle _ event).2.1

theorem modified_of_version {t : Tracked S P} (h : t.root.version ≠ t.original.version) :
    t.modified = true := by
  simp [Tracked.modified, h]

variable (handle) in
/-- The exception resets the context. -/
theorem attempt_outdated {mode : SaveMode} (hmode : mode ≠ .saveChanges)
    (ht : s.tracked i = some t) (houtdated : t.original.version ≠ s.row.version)
    (hnext : t.root.nextVersion ≠ t.original.version) (event : AggregateRootEvent P) :
    ∃ u, run (step handle) s (attempt i mode event) = some u ∧ u.tracked i = none ∧
      u.commits = s.commits := by
  have hmodified : (attempted handle s i event).modified = true := by
    apply modified_of_version
    rw [attempted_version, ht]
    simpa [attempted, ht, Tracked.onEvent] using hnext
  have hversion : ¬s.row.version = (attempted handle s i event).original.version := by
    simpa [attempted, ht, Tracked.onEvent] using houtdated.symm
  have hnone : conflicted mode (attempted handle s i event) = none := by
    cases mode with
    | commit | saveChangesAsync => rfl
    | saveChanges => exact absurd rfl hmode
  refine ⟨_, run_attempt handle s i mode event, ?_, ?_⟩
  · rw [saveChanges, if_neg Bool.false_ne_true, if_pos hmodified]
    rw [if_neg (show ¬(s.track i _).row.version = _ from hversion), hnone]
    exact track_self _ i none
  · rw [saveChanges, if_neg Bool.false_ne_true, if_pos hmodified]
    rw [if_neg (show ¬(s.track i _).row.version = _ from hversion)]
    rfl

variable (handle) in
/-- A context that tracks nothing saves what the row becomes. -/
theorem attempt_reset (hnone : s.tracked i = none) (mode : SaveMode)
    (event : AggregateRootEvent P) :
    ∃ u, run (step handle) s (attempt i mode event) = some u ∧ u.commits ≠ s.commits := by
  have hmodified : (attempted handle s i event).modified = true := by
    apply modified_of_version
    rw [attempted_version, hnone]
    simp [attempted, hnone, Tracked.onEvent, load, VersionedAggregateRoot.nextVersion,
      VersionedAggregateRoot.getNewVersion]
  have hversion : s.row.version = (attempted handle s i event).original.version := by
    simp [attempted, hnone, Tracked.onEvent, load]
  refine ⟨_, run_attempt handle s i mode event, ?_⟩
  rw [saveChanges, if_neg Bool.false_ne_true, if_pos hmodified]
  rw [if_pos (show (s.track i _).row.version = _ from hversion)]
  simp [track]

/-- `SaveChanges` leaves a context with an outdated aggregate as it is. -/
theorem saveChanges_outdated {t : Tracked S P} (h : t.original.version ≠ s.row.version) :
    s.saveChanges i .saveChanges false t = s.track i (some t) := by
  unfold saveChanges
  rw [if_neg Bool.false_ne_true]
  split
  · rw [if_neg h.symm]
    rfl
  · rfl

/-- A context whose aggregate is outdated, and is going to have another version than its original
one: by trying again it gets it saved at some time exactly if the exception resets the context. -/
theorem retry_saves_iff (ht : s.tracked i = some t) (houtdated : t.original.version ≠ s.row.version)
    (hnext : t.root.nextVersion ≠ t.original.version) (mode : SaveMode)
    (events : Nat → AggregateRootEvent P) :
    (∃ n s', run (step handle) s (attempts i mode events n) = some s' ∧ s'.commits ≠ s.commits) ↔
      mode ≠ .saveChanges := by
  constructor
  · rintro ⟨n, s', hrun, hcommits⟩ rfl
    have hstuck : ∀ n s', run (step handle) s (attempts i .saveChanges events n) = some s' →
        s'.commits = s.commits ∧ s'.row = s.row ∧
          ∃ t', s'.tracked i = some t' ∧ t'.original = t.original := by
      intro n
      induction n with
      | zero =>
        intro s' hrun
        cases hrun
        exact ⟨rfl, rfl, t, ht, rfl⟩
      | succ n ih =>
        intro s' hrun
        rw [attempts, List.range_succ, List.flatMap_append, List.flatMap_singleton] at hrun
        obtain ⟨u, hu, hlast⟩ := run_append_eq_some.1 hrun
        obtain ⟨hcommits, hrow, t', ht', horiginal⟩ := ih u hu
        rw [run_attempt, saveChanges_outdated] at hlast
        · cases hlast
          refine ⟨hcommits, hrow, _, track_self _ i _, ?_⟩
          simp [attempted, ht', Tracked.onEvent, horiginal]
        · show (attempted handle u i (events n)).original.version ≠ u.row.version
          simpa [attempted, ht', Tracked.onEvent, horiginal, hrow] using houtdated
    exact hcommits (hstuck n s' hrun).1
  · intro hmode
    obtain ⟨u, hu, hnone, hcommits⟩ :=
      attempt_outdated handle hmode ht houtdated hnext (events 0)
    obtain ⟨v, hv, hmore⟩ := attempt_reset handle hnone mode (events 1)
    refine ⟨2, v, ?_, hcommits ▸ hmore⟩
    have htwo : attempts i mode events 2 = attempt i mode (events 0) ++ attempt i mode (events 1) := by
      simp [attempts, List.range_succ]
    rw [htwo]
    exact run_append_eq_some.2 ⟨u, hu, hv⟩

/-- The second context of two that take from the same amount. -/
theorem retry_saves_iff_twoReductions : ∃ s t,
    run (step reduce) (init "product" ⟨20, 0⟩) (twoReductions.take 5) = some s ∧
      s.tracked 1 = some t ∧
      (∃ n s', run (step reduce) s (attempts 1 .commit (fun _ => ⟨0, "", 1⟩) n) = some s' ∧
        s'.commits ≠ s.commits) := by
  have hfacts : (run (step reduce) (init "product" ⟨20, 0⟩) (twoReductions.take 5)).bind
      (fun s => (s.tracked 1).map fun t => (t.original.version, s.row.version, t.root.nextVersion)) =
        some (0, 1, 1) := by decide +kernel
  obtain ⟨s, hrun, hs⟩ := Option.bind_eq_some_iff.1 hfacts
  obtain ⟨t, ht, hversions⟩ := Option.map_eq_some_iff.1 hs
  simp only [Prod.mk.injEq] at hversions
  obtain ⟨horiginal, hrow, hnext⟩ := hversions
  refine ⟨s, t, hrun, ht, (retry_saves_iff ht ?_ ?_ .commit _).2 (by decide)⟩
  · rw [horiginal, hrow]
    decide
  · rw [horiginal, hnext]
    decide

end Retry

end Table

end IFramework.EntityFrameworkCore
