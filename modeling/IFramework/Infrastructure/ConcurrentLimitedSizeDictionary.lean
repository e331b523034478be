import IFramework.Theory.AgedMap
import Mathlib.Data.Finmap

/-!
# Dictionaries of a limited size

`ConcurrentLimitedSizeDictionary` keeps its entries in a `ConcurrentDictionary` and the keys, in the
order in which they were added, in a queue. Each operation that writes holds the lock of the object,
so that a run is a sequence of operations. `refines_reference` says that the two collections are
kept in step and behave as one map that drops the key that was inserted longest ago (`AgedMap`).

A key of a reference type can be `null` (`none`); the dictionary throws on it. The extension method
`TryRemove` catches that, and otherwise returns `true`, whether the key was there or not.
-/

namespace IFramework.Infrastructure

/-- A `ConcurrentLimitedSizeDictionary`. -/
structure ConcurrentLimitedSizeDictionary (κ ν : Type) where
  dict : Finmap fun _ : κ => ν
  size : Nat
  queue : List κ

namespace ConcurrentLimitedSizeDictionary

/-- How an operation ends. -/
inductive Outcome where
  | returned
  | returnedBool (value : Bool)
  | argumentNullException
  | invalidOperationException
  deriving DecidableEq, Repr

/-- The operations that hold the lock. -/
inductive Operation (κ ν : Type) where
  | add (key : Option κ) (value : ν)
  | addPair (item : Option κ × ν)
  | remove (key : Option κ)
  | removePair (item : Option κ × ν)
  | setItem (key : Option κ) (value : ν)
  | clear

variable {κ ν : Type} [DecidableEq κ]

/-- The constructor. -/
def new (size : Nat) : ConcurrentLimitedSizeDictionary κ ν := ⟨∅, size, []⟩

/-- `Count`. -/
def count (d : ConcurrentLimitedSizeDictionary κ ν) : Nat := d.dict.keys.card

/-- `Utility.TryRemove`. -/
def tryRemove (dict : Finmap fun _ : κ => ν) : Option κ → (Finmap fun _ : κ => ν) × Bool
  | some key => (dict.erase key, true)
  | none => (dict, false)

/-- `Add`. -/
def add (d : ConcurrentLimitedSizeDictionary κ ν) (key : Option κ) (value : ν) :
    ConcurrentLimitedSizeDictionary κ ν × Outcome :=
  match key with
  | none => (d, .argumentNullException)
  | some key =>
    if key ∈ d.dict then (d, .returned)
    else
      let dict := d.dict.insert key value
      if d.queue.length = d.size then
        match d.queue with
        -- `Dequeue` throws when `_size` is zero
        | [] => ({ d with dict := dict }, .invalidOperationException)
        | keyIndex :: rest =>
          ({ d with dict := (tryRemove dict (some keyIndex)).1, queue := rest ++ [key] }, .returned)
      else ({ d with dict := dict, queue := d.queue ++ [key] }, .returned)

/-- `Remove`. -/
def remove (d : ConcurrentLimitedSizeDictionary κ ν) (key : Option κ) :
    ConcurrentLimitedSizeDictionary κ ν × Outcome :=
  match tryRemove d.dict key with
  | (dict, true) =>
    ({ d with dict := dict, queue := d.queue.filter fun item => some item ≠ key },
      .returnedBool true)
  | (dict, false) => ({ d with dict := dict }, .returnedBool false)

/-- The setter of the indexer. -/
def setItem (d : ConcurrentLimitedSizeDictionary κ ν) (key : Option κ) (value : ν) :
    ConcurrentLimitedSizeDictionary κ ν × Outcome :=
  match key with
  | none => (d, .argumentNullException)
  | some key =>
    if key ∈ d.dict then ({ d with dict := d.dict.insert key value }, .returned)
    else d.add (some key) value

/-- `Clear`. -/
def clear (d : ConcurrentLimitedSizeDictionary κ ν) :
    ConcurrentLimitedSizeDictionary κ ν × Outcome :=
  ({ d with dict := ∅, queue := [] }, .returned)

/-- An operation. -/
def perform (d : ConcurrentLimitedSizeDictionary κ ν) :
    Operation κ ν → ConcurrentLimitedSizeDictionary κ ν × Outcome
  | .add key value => d.add key value
  | .addPair item => d.add item.1 item.2
  | .remove key => d.remove key
  | .removePair item => d.remove item.1
  | .setItem key value => d.setItem key value
  | .clear => d.clear

/-- The dictionary after these operations, from an empty one. -/
def after (size : Nat) (operations : List (Operation κ ν)) :
    ConcurrentLimitedSizeDictionary κ ν :=
  operations.foldl (fun d operation => (d.perform operation).1) (new size)

/-! ## The reference -/

/-- What `Add` should do: nothing for a key that is present. -/
noncomputable def referenceAdd (size : Nat) (m : AgedMap κ ν) (key : Option κ) (value : ν) :
    AgedMap κ ν :=
  match key with
  | none => m
  | some key => if m.lookup key = none then m.put size key value else m

/-- What `Remove` should do. -/
def referenceRemove (m : AgedMap κ ν) (key : Option κ) : AgedMap κ ν :=
  match key with
  | none => m
  | some key => m.erase key

/-- What the setter should do: a key that is present keeps its age. -/
noncomputable def referenceSet (size : Nat) (m : AgedMap κ ν) (key : Option κ) (value : ν) :
    AgedMap κ ν :=
  match key with
  | none => m
  | some key => if m.lookup key = none then m.put size key value else m.replace key value

/-- What an operation should do. -/
noncomputable def referencePerform (size : Nat) (m : AgedMap κ ν) : Operation κ ν → AgedMap κ ν
  | .add key value => referenceAdd size m key value
  | .addPair item => referenceAdd size m item.1 item.2
  | .remove key => referenceRemove m key
  | .removePair item => referenceRemove m item.1
  | .setItem key value => referenceSet size m key value
  | .clear => m.clear

/-- What should be in the dictionary after these operations. -/
noncomputable def reference (size : Nat) (operations : List (Operation κ ν)) : AgedMap κ ν :=
  operations.foldl (referencePerform size) .empty

/-! ## Refinement -/

variable {d : ConcurrentLimitedSizeDictionary κ ν} {m : AgedMap κ ν}

/-- The dictionary holds the content of the map, and the queue its keys in the order of their
ages. -/
structure Refines (d : ConcurrentLimitedSizeDictionary κ ν) (m : AgedMap κ ν) : Prop where
  size_pos : 0 < d.size
  lookup : ∀ k, d.dict.lookup k = m.lookup k
  lists : m.Lists d.queue
  length_le : d.queue.length ≤ d.size

namespace Refines

theorem new {size : Nat} (hsize : 0 < size) : Refines (new size) (.empty : AgedMap κ ν) where
  size_pos := hsize
  lookup _ := rfl
  lists := .nil_empty
  length_le := Nat.zero_le _

theorem mem_iff (h : Refines d m) (k : κ) : k ∈ d.dict ↔ m.lookup k ≠ none := by
  rw [← h.lookup, Ne, Finmap.lookup_eq_none, not_not]

/-- A new key: if the dictionary is full, the first key of the queue makes room for it. -/
theorem add_new (h : Refines d m) {k : κ} (hk : m.lookup k = none) (v : ν) :
    Refines (d.add (some k) v).1 (m.put d.size k v) ∧ (d.add (some k) v).1.size = d.size := by
  have hmem : k ∉ d.dict := by simp [h.mem_iff, hk]
  have hsize := h.size_pos
  simp only [add, if_neg hmem]
  by_cases hfull : d.queue.length = d.size
  · rw [if_pos hfull]
    cases hqueue : d.queue with
    | nil =>
      rw [hqueue, List.length_nil] at hfull
      omega
    | cons first rest =>
      have hlists := h.lists
      rw [hqueue] at hlists hfull
      have hne : first ≠ k := by
        rintro rfl
        exact (hlists.mem_iff first).1 List.mem_cons_self hk
      have hnone : (m.erase first).lookup k = none := by simp [AgedMap.erase, hne.symm, hk]
      rw [hlists.put_of_full hfull]
      refine ⟨⟨hsize, ?_, hlists.erase_head.insert hnone, ?_⟩, rfl⟩
      · intro k'
        by_cases hk' : k' = k
        · subst hk'
          simp [tryRemove, AgedMap.insert, Finmap.lookup_erase_ne hne.symm]
        · by_cases hfirst : k' = first
          · subst hfirst
            simp [tryRemove, AgedMap.insert, AgedMap.erase, hk']
          · simp [tryRemove, AgedMap.insert, AgedMap.erase, hk', hfirst, h.lookup,
              Finmap.lookup_erase_ne hfirst, Finmap.lookup_insert_of_ne]
      · simpa using Nat.le_of_eq hfull
  · rw [if_neg hfull, h.lists.put_of_room hfull]
    refine ⟨⟨hsize, ?_, h.lists.insert hk, ?_⟩, rfl⟩
    · intro k'
      by_cases hk' : k' = k
      · subst hk'
        simp [AgedMap.insert]
      · simp [AgedMap.insert, hk', h.lookup, Finmap.lookup_insert_of_ne]
    · have hle := h.length_le
      simp only [List.length_append, List.length_singleton]
      omega

theorem add (h : Refines d m) (key : Option κ) (v : ν) :
    Refines (d.add key v).1 (referenceAdd d.size m key v) ∧ (d.add key v).1.size = d.size := by
  cases key with
  | none => exact ⟨h, rfl⟩
  | some k =>
    by_cases hk : m.lookup k = none
    · rw [referenceAdd, if_pos hk]
      exact h.add_new hk v
    · have hmem : k ∈ d.dict := (h.mem_iff k).2 hk
      simp only [referenceAdd, if_neg hk, ConcurrentLimitedSizeDictionary.add, if_pos hmem]
      exact ⟨h, trivial⟩

theorem remove (h : Refines d m) (key : Option κ) :
    Refines (d.remove key).1 (referenceRemove m key) ∧ (d.remove key).1.size = d.size := by
  cases key with
  | none => exact ⟨h, rfl⟩
  | some k =>
    refine ⟨⟨h.size_pos, ?_, ?_, ?_⟩, rfl⟩
    · intro k'
      by_cases hk' : k' = k
      · subst hk'
        simp [ConcurrentLimitedSizeDictionary.remove, tryRemove, referenceRemove, AgedMap.erase]
      · simp [ConcurrentLimitedSizeDictionary.remove, tryRemove, referenceRemove, AgedMap.erase,
          hk', h.lookup, Finmap.lookup_erase_ne hk']
    · simpa [ConcurrentLimitedSizeDictionary.remove, tryRemove, referenceRemove]
        using h.lists.erase k
    · exact Nat.le_trans (List.length_filter_le _ _) h.length_le

theorem setItem (h : Refines d m) (key : Option κ) (v : ν) :
    Refines (d.setItem key v).1 (referenceSet d.size m key v) ∧
      (d.setItem key v).1.size = d.size := by
  cases key with
  | none => exact ⟨h, rfl⟩
  | some k =>
    by_cases hk : m.lookup k = none
    · have hmem : k ∉ d.dict := by simp [h.mem_iff, hk]
      simp only [referenceSet, if_pos hk, ConcurrentLimitedSizeDictionary.setItem, if_neg hmem]
      exact h.add_new hk v
    · have hmem : k ∈ d.dict := (h.mem_iff k).2 hk
      simp only [referenceSet, if_neg hk, ConcurrentLimitedSizeDictionary.setItem, if_pos hmem]
      refine ⟨⟨h.size_pos, ?_, h.lists.replace hk, h.length_le⟩, trivial⟩
      intro k'
      by_cases hk' : k' = k
      · subst hk'
        simp [AgedMap.replace]
      · simp [AgedMap.replace, hk', h.lookup, Finmap.lookup_insert_of_ne]

theorem clear (h : Refines d m) : Refines d.clear.1 m.clear where
  size_pos := h.size_pos
  lookup _ := rfl
  lists := h.lists.clear
  length_le := Nat.zero_le _

theorem perform (h : Refines d m) (operation : Operation κ ν) :
    Refines (d.perform operation).1 (referencePerform d.size m operation) ∧
      (d.perform operation).1.size = d.size := by
  cases operation with
  | add key value => exact h.add key value
  | addPair item => exact h.add item.1 item.2
  | remove key => exact h.remove key
  | removePair item => exact h.remove item.1
  | setItem key value => exact h.setItem key value
  | clear => exact ⟨h.clear, rfl⟩

theorem foldl (h : Refines d m) (operations : List (Operation κ ν)) :
    Refines (operations.foldl (fun d operation => (d.perform operation).1) d)
        (operations.foldl (referencePerform d.size) m) ∧
      (operations.foldl (fun d operation => (d.perform operation).1) d).size = d.size := by
  induction operations generalizing d m with
  | nil => exact ⟨h, rfl⟩
  | cons operation operations ih =>
    obtain ⟨hnext, hsize⟩ := h.perform operation
    have hrest := ih hnext
    rw [hsize] at hrest
    exact hrest

theorem count_eq (h : Refines d m) : d.count = d.queue.length := by
  have hkeys : d.dict.keys = d.queue.toFinset := by
    ext k
    rw [Finmap.mem_keys, h.mem_iff, List.mem_toFinset, h.lists.mem_iff]
  rw [count, hkeys, List.toFinset_card_of_nodup h.lists.nodup]

end Refines

/-- For every size and every sequence of operations: the queue has no duplicates and holds the keys
of the dictionary, there are at most `size` of them, and the content of the dictionary is that of
the map in which a key that is set keeps its age, a key that is present is not added again, and a
new key takes the place of the one that was inserted longest ago. -/
theorem refines_reference {size : Nat} (hsize : 1 ≤ size) (operations : List (Operation κ ν)) :
    (after size operations).queue.Nodup ∧
      (∀ k, k ∈ (after size operations).queue ↔ k ∈ (after size operations).dict) ∧
      (after size operations).count ≤ size ∧
      ∀ k, (after size operations).dict.lookup k = (reference size operations).lookup k := by
  obtain ⟨h, hsizes⟩ : Refines (after size operations) (reference size operations) ∧
      (after size operations).size = size :=
    (Refines.new hsize).foldl operations
  refine ⟨h.lists.nodup, ?_, ?_, h.lookup⟩
  · intro k
    rw [h.lists.mem_iff, h.mem_iff]
  · have hle := h.length_le
    rw [hsizes] at hle
    rwa [h.count_eq]

/-- The third key takes the place of the first one, whose value has been replaced. -/
theorem refines_of_size_two :
    (1 ≤ 2 ∧ (after 2 [.add (some "a") 1, .add (some "b") 2, .setItem (some "a") 3,
        .add (some "c") 4]).queue = ["b", "c"]) ∧
      ∀ k, (after 2 [.add (some "a") 1, .add (some "b") 2, .setItem (some "a") 3,
          .add (some "c") 4]).dict.lookup k =
        (reference 2 [.add (some "a") 1, .add (some "b") 2, .setItem (some "a") 3,
          .add (some "c") 4]).lookup k :=
  ⟨by decide, (refines_reference (by decide) _).2.2.2⟩

/-! ## One write -/

/-- The setter writes its key, and drops one other key at most. -/
theorem lookup_setItem (h : Refines d m) (k : κ) (v : ν) :
    ∃ evicted : Option κ, ∀ k', (d.setItem (some k) v).1.dict.lookup k' =
      if k' = k then some v else if evicted = some k' then none else d.dict.lookup k' := by
  obtain ⟨hset, -⟩ := h.setItem (some k) v
  by_cases hk : m.lookup k = none
  · by_cases hfull : d.queue.length = d.size
    · cases hqueue : d.queue with
      | nil =>
        have hsize := h.size_pos
        rw [hqueue, List.length_nil] at hfull
        omega
      | cons first rest =>
        have hlists := h.lists
        rw [hqueue] at hlists hfull
        refine ⟨some first, fun k' => ?_⟩
        rw [hset.lookup, referenceSet, if_pos hk, hlists.put_of_full hfull, h.lookup]
        by_cases hk' : k' = k
        · simp [AgedMap.insert, hk']
        · by_cases hfirst : k' = first
          · subst hfirst
            simp [AgedMap.insert, AgedMap.erase, hk']
          · simp [AgedMap.insert, AgedMap.erase, hk', hfirst, Ne.symm hfirst]
    · refine ⟨none, fun k' => ?_⟩
      rw [hset.lookup, referenceSet, if_pos hk, h.lists.put_of_room hfull, h.lookup]
      by_cases hk' : k' = k
      · simp [AgedMap.insert, hk']
      · simp [AgedMap.insert, hk']
  · refine ⟨none, fun k' => ?_⟩
    rw [hset.lookup, referenceSet, if_neg hk, h.lookup]
    by_cases hk' : k' = k
    · simp [AgedMap.replace, hk']
    · simp [AgedMap.replace, hk']

end ConcurrentLimitedSizeDictionary

end IFramework.Infrastructure
