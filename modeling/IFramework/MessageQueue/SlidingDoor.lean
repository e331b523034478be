import IFramework.Theory.Run
import IFramework.Theory.SortedList
import Mathlib.Data.Finset.Max
import Mathlib.Data.Int.Order.Basic
import Mathlib.Order.Interval.Finset.Defs

/-!
# The sliding door of a partition

`SlidingDoor` keeps the offsets that have been handed out and not been finished, in a `SortedSet`,
and the finished ones that have not been committed, in a `SortedList`. When an offset is finished it
looks up the offset directly below the first pending one and commits it.

Both calls hold the same lock, so that a run is a sequence of calls. `Session` adds to the door what
the calls have done so far: which offsets were added, which of them are pending, which were removed,
and what was passed to `CommitOffset`. The door reads none of it. Offsets are integers; those of a
partition are not negative, and `Offsets.First() - 1` does not wrap around.
-/

namespace IFramework.MessageQueue

open Machine

/-- A `MessageOffset`. -/
structure MessageOffset where
  broker : String
  topic : String
  partition : Int
  offset : Int
  deriving DecidableEq, Repr

/-- `Utility.TryRemoveBeforeKey`: if the key is there, remove the entries up to it and return its
value. -/
def tryRemoveBeforeKey {κ ν : Type*} [LinearOrder κ] (list : SortedList κ ν) (key : κ) :
    SortedList κ ν × Option ν :=
  match list.indexOfKey key with
  | some index =>
    let obj := list.elementAt index
    if index = list.count - 1 then (.empty, obj)
    else ((fun list => list.removeAt 0)^[index + 1] list, obj)
  | none => (list, none)

section TryRemoveBeforeKey

variable {κ ν : Type*} [LinearOrder κ] {list : SortedList κ ν} {key : κ}

/-- Nothing happens when the key is absent; otherwise its value is returned, and what remains are the
entries behind it. -/
theorem tryRemoveBeforeKey_cases (list : SortedList κ ν) (key : κ) :
    (¬list.ContainsKey key ∧ tryRemoveBeforeKey list key = (list, none)) ∨
      ∃ index v, list.indexOfKey key = some index ∧ (key, v) ∈ list.entries ∧
        (tryRemoveBeforeKey list key).2 = some v ∧
        (tryRemoveBeforeKey list key).1.entries = list.entries.drop (index + 1) := by
  unfold tryRemoveBeforeKey
  cases hindex : list.indexOfKey key with
  | none => exact .inl ⟨SortedList.indexOfKey_eq_none.1 hindex, rfl⟩
  | some index =>
    obtain ⟨v, hv⟩ := SortedList.getElem_indexOfKey hindex
    have hlt : index < list.entries.length := (List.getElem?_eq_some_iff.1 hv).1
    have hvalue : list.elementAt index = some v := by simp [SortedList.elementAt, hv]
    refine .inr ⟨index, v, rfl, List.mem_of_getElem? hv, ?_, ?_⟩
    · simp only [hvalue]
      split <;> rfl
    · simp only
      split
      · next hlast =>
        -- the key is the last one, and nothing is left behind it
        have hdrop : list.entries.drop (index + 1) = [] := by
          rw [List.drop_eq_nil_iff]
          unfold SortedList.count at hlast
          omega
        simp [SortedList.empty, hdrop]
      · exact SortedList.entries_iterate_removeAt_zero list (index + 1)

/-- The value that is returned is the value of the key. -/
theorem tryRemoveBeforeKey_snd {v : ν} (h : (tryRemoveBeforeKey list key).2 = some v) :
    (key, v) ∈ list.entries := by
  rcases tryRemoveBeforeKey_cases list key with ⟨-, heq⟩ | ⟨index, w, -, hmem, heq, -⟩
  · rw [heq] at h
    cases h
  · cases heq.symm.trans h
    exact hmem

/-- Nothing is returned, and nothing removed, exactly when the key is absent. -/
theorem tryRemoveBeforeKey_eq_none :
    (tryRemoveBeforeKey list key).2 = none ↔ ¬list.ContainsKey key := by
  rcases tryRemoveBeforeKey_cases list key with ⟨habsent, heq⟩ | ⟨index, w, -, hmem, heq, -⟩
  · exact iff_of_true (by rw [heq]) habsent
  · exact iff_of_false (by simp [heq]) (not_not_intro ⟨w, hmem⟩)

/-- What remains are the entries with a greater key, when the key is there. -/
theorem mem_tryRemoveBeforeKey {e : κ × ν} :
    e ∈ (tryRemoveBeforeKey list key).1.entries ↔
      e ∈ list.entries ∧ (list.ContainsKey key → key < e.1) := by
  rcases tryRemoveBeforeKey_cases list key with ⟨habsent, heq⟩ | ⟨index, w, hindex, hmem, -, heq⟩
  · simp [heq, habsent]
  · have hcontains : list.ContainsKey key := ⟨w, hmem⟩
    rw [heq, SortedList.mem_drop_indexOfKey hindex]
    simp [hcontains]

end TryRemoveBeforeKey

/-- A `SlidingDoor`. -/
structure SlidingDoor where
  commitPerMessage : Bool
  consumedOffset : Int
  lastCommittedOffset : Int
  lastOffset : Int
  offsets : Finset Int
  removedMessageOffsets : SortedList Int MessageOffset

namespace SlidingDoor

/-- The constructor. -/
def new (commitPerMessage : Bool) : SlidingDoor where
  commitPerMessage := commitPerMessage
  consumedOffset := -1
  lastCommittedOffset := -1
  lastOffset := -1
  offsets := ∅
  removedMessageOffsets := .empty

/-- `MessageCount`. -/
def messageCount (door : SlidingDoor) : Nat := door.offsets.card

/-- `AddOffset`. -/
def addOffset (door : SlidingDoor) (offset : Int) : SlidingDoor :=
  if !door.commitPerMessage then
    { door with offsets := insert offset door.offsets, lastOffset := offset }
  else door

/-- How a call of `RemoveOffset` ends: it returns, after passing at most one offset to
`CommitOffset`, or `SortedList.Add` throws on a key that is present. -/
inductive RemoveOutcome where
  | returned (committed : Option MessageOffset)
  | argumentException
  deriving DecidableEq, Repr

/-- The last part of `RemoveOffset`: commit up to `ConsumedOffset` if that is new. -/
def commitConsumed (door : SlidingDoor) : SlidingDoor × Option MessageOffset :=
  if door.consumedOffset > door.lastCommittedOffset then
    let (removed, currentMessageOffset) :=
      tryRemoveBeforeKey door.removedMessageOffsets door.consumedOffset
    ({ door with
        removedMessageOffsets := removed
        lastCommittedOffset := door.consumedOffset }, currentMessageOffset)
  else (door, none)

/-- What `ConsumedOffset` becomes when these offsets remain. -/
def consumedOf (offsets : Finset Int) (lastOffset : Int) : Int :=
  if h : offsets.Nonempty then offsets.min' h - 1 else lastOffset

/-- The door when the offset has moved from the pending to the finished ones, before the commit. -/
abbrev finish (door : SlidingDoor) (offset : Int) (removed : SortedList Int MessageOffset) :
    SlidingDoor :=
  { door with
    offsets := door.offsets.erase offset
    removedMessageOffsets := removed
    consumedOffset := consumedOf (door.offsets.erase offset) door.lastOffset }

/-- `RemoveOffset`. -/
def removeOffset (door : SlidingDoor) (messageOffset : MessageOffset) :
    SlidingDoor × RemoveOutcome :=
  if door.commitPerMessage then (door, .returned (some messageOffset))
  else if messageOffset.offset ∈ door.offsets then
    match door.removedMessageOffsets.add messageOffset.offset messageOffset with
    | none =>
      ({ door with offsets := door.offsets.erase messageOffset.offset }, .argumentException)
    | some removed =>
      let (door, committed) := (door.finish messageOffset.offset removed).commitConsumed
      (door, .returned committed)
  else
    let (door, committed) := commitConsumed door
    (door, .returned committed)

/-! ### What the commit does -/

section CommitConsumed

variable (door : SlidingDoor)

@[simp] theorem commitConsumed_commitPerMessage :
    door.commitConsumed.1.commitPerMessage = door.commitPerMessage := by
  unfold commitConsumed
  split <;> rfl

@[simp] theorem commitConsumed_offsets : door.commitConsumed.1.offsets = door.offsets := by
  unfold commitConsumed
  split <;> rfl

@[simp] theorem commitConsumed_lastOffset :
    door.commitConsumed.1.lastOffset = door.lastOffset := by
  unfold commitConsumed
  split <;> rfl

@[simp] theorem commitConsumed_consumedOffset :
    door.commitConsumed.1.consumedOffset = door.consumedOffset := by
  unfold commitConsumed
  split <;> rfl

@[simp] theorem commitConsumed_lastCommittedOffset :
    door.commitConsumed.1.lastCommittedOffset =
      max door.lastCommittedOffset door.consumedOffset := by
  unfold commitConsumed
  split
  · next h => exact (max_eq_right (le_of_lt h)).symm
  · next h => exact (max_eq_left (not_lt.1 h)).symm

/-- What is committed is the finished message at `ConsumedOffset`, which is new. -/
theorem commitConsumed_some {c : MessageOffset} (h : door.commitConsumed.2 = some c) :
    door.lastCommittedOffset < door.consumedOffset ∧
      (door.consumedOffset, c) ∈ door.removedMessageOffsets.entries := by
  unfold commitConsumed at h
  split at h
  · next hlt => exact ⟨hlt, tryRemoveBeforeKey_snd h⟩
  · cases h

/-- Nothing is committed exactly when `ConsumedOffset` is not new or not finished. -/
theorem commitConsumed_eq_none :
    door.commitConsumed.2 = none ↔
      door.consumedOffset ≤ door.lastCommittedOffset ∨
        ¬door.removedMessageOffsets.ContainsKey door.consumedOffset := by
  unfold commitConsumed
  split
  · next hlt =>
    rw [or_iff_right (not_le.2 hlt)]
    exact tryRemoveBeforeKey_eq_none
  · next hge => exact iff_of_true rfl (.inl (not_lt.1 hge))

/-- What is still to be committed was so before, and is beyond what has been committed. -/
theorem mem_commitConsumed {e : Int × MessageOffset} :
    e ∈ door.commitConsumed.1.removedMessageOffsets.entries ↔
      e ∈ door.removedMessageOffsets.entries ∧
        (door.lastCommittedOffset < door.consumedOffset →
          door.removedMessageOffsets.ContainsKey door.consumedOffset →
          door.consumedOffset < e.1) := by
  unfold commitConsumed
  split
  · next hlt => simp [mem_tryRemoveBeforeKey, hlt]
  · next hge => simp [not_lt.1 hge]

end CommitConsumed

/-- A call of `RemoveOffset` that returns: the offset was pending, and is finished now, or it was
not, and nothing is new. -/
theorem removeOffset_cases {door door' : SlidingDoor} {m : MessageOffset}
    {committed : Option MessageOffset} (hper : door.commitPerMessage = false)
    (h : door.removeOffset m = (door', .returned committed)) :
    (m.offset ∉ door.offsets ∧ door.commitConsumed = (door', committed)) ∨
      ∃ removed, m.offset ∈ door.offsets ∧
        door.removedMessageOffsets.add m.offset m = some removed ∧
        (door.finish m.offset removed).commitConsumed = (door', committed) := by
  unfold removeOffset at h
  simp only [hper, Bool.false_eq_true, if_false] at h
  split at h
  · next hmem =>
    split at h
    · simp at h
    · next removed hadd =>
      refine .inr ⟨removed, hmem, hadd, ?_⟩
      simpa [Prod.ext_iff, hper] using h
  · next hmem =>
    refine .inl ⟨hmem, ?_⟩
    simpa [Prod.ext_iff] using h

end SlidingDoor

/-! ## Runs -/

/-- What the calls have done so far. -/
structure Ledger where
  added : Finset Int
  pending : Finset Int
  removed : Finset Int
  commits : List MessageOffset

/-- A door with its ledger. -/
structure Session where
  door : SlidingDoor
  ledger : Ledger

/-- A new door, which commits up to the first pending offset. -/
def Session.init : Session := ⟨.new false, ⟨∅, ∅, ∅, []⟩⟩

/-- A call of the door. -/
inductive Call where
  | addOffset (offset : Int)
  | removeOffset (messageOffset : MessageOffset)

/-- What a call that returns does; `none` for a call that throws. -/
def step (s : Session) : Call → Option Session
  | .addOffset offset =>
    some ⟨s.door.addOffset offset,
      { s.ledger with
        added := insert offset s.ledger.added
        pending := insert offset s.ledger.pending }⟩
  | .removeOffset messageOffset =>
    match s.door.removeOffset messageOffset with
    | (door, .returned committed) =>
      some ⟨door,
        { s.ledger with
          pending := s.ledger.pending.erase messageOffset.offset
          removed :=
            if messageOffset.offset ∈ s.ledger.pending then
              insert messageOffset.offset s.ledger.removed
            else s.ledger.removed
          commits := s.ledger.commits ++ committed.toList }⟩
    | (_, .argumentException) => none

/-- A call of `RemoveOffset` that returns, with what it does to the ledger. -/
theorem step_removeOffset {s s' : Session} {m : MessageOffset}
    (h : step s (.removeOffset m) = some s') :
    ∃ committed, s.door.removeOffset m = (s'.door, .returned committed) ∧
      s'.ledger =
        { s.ledger with
          pending := s.ledger.pending.erase m.offset
          removed :=
            if m.offset ∈ s.ledger.pending then insert m.offset s.ledger.removed
            else s.ledger.removed
          commits := s.ledger.commits ++ committed.toList } := by
  simp only [step] at h
  split at h
  · next door committed hdoor =>
    cases h
    exact ⟨committed, hdoor, rfl⟩
  · cases h

end IFramework.MessageQueue
