import Mathlib.Data.Set.Card

/-!
# Maps that remember the age of their keys

An `AgedMap` holds values under keys, and the time at which each key was inserted. A map of a
bounded size makes room for a new key by dropping the key that was inserted longest ago (`put`).
The ages are the specification of an order of eviction; `Lists m l` says that the list `l` holds the
keys of `m` in the order in which they were inserted, which is how such a map is implemented.
-/

/-- Values under keys, with the time at which each key was inserted. -/
structure AgedMap (κ ν : Type*) where
  lookup : κ → Option ν
  insertedAt : κ → ℕ
  now : ℕ

namespace AgedMap

variable {κ ν : Type*} [DecidableEq κ]

/-- The map without keys. -/
def empty : AgedMap κ ν := ⟨fun _ => none, fun _ => 0, 0⟩

/-- The keys that have a value. -/
def keys (m : AgedMap κ ν) : Set κ := {k | m.lookup k ≠ none}

/-- No key was inserted before this one. -/
def IsOldest (m : AgedMap κ ν) (k : κ) : Prop :=
  k ∈ m.keys ∧ ∀ k' ∈ m.keys, m.insertedAt k ≤ m.insertedAt k'

/-- Drop a key. -/
def erase (m : AgedMap κ ν) (k : κ) : AgedMap κ ν :=
  { m with lookup := Function.update m.lookup k none }

/-- Drop the key that was inserted longest ago. -/
noncomputable def evict (m : AgedMap κ ν) : AgedMap κ ν :=
  open Classical in { m with lookup := fun k => if m.IsOldest k then none else m.lookup k }

/-- Insert a key now. -/
def insert (m : AgedMap κ ν) (k : κ) (v : ν) : AgedMap κ ν where
  lookup := Function.update m.lookup k (some v)
  insertedAt := Function.update m.insertedAt k m.now
  now := m.now + 1

/-- Insert a new key into a map with room for `size` keys. -/
noncomputable def put (size : ℕ) (m : AgedMap κ ν) (k : κ) (v : ν) : AgedMap κ ν :=
  open Classical in if m.keys.ncard = size then m.evict.insert k v else m.insert k v

/-- Replace the value of a key, which keeps its age. -/
def replace (m : AgedMap κ ν) (k : κ) (v : ν) : AgedMap κ ν :=
  { m with lookup := Function.update m.lookup k (some v) }

/-- Drop all keys. -/
def clear (m : AgedMap κ ν) : AgedMap κ ν := { m with lookup := fun _ => none }

/-! ## Keys in the order of insertion -/

/-- The list holds the keys in the order in which they were inserted. -/
structure Lists (m : AgedMap κ ν) (l : List κ) : Prop where
  mem_iff : ∀ k, k ∈ l ↔ m.lookup k ≠ none
  sorted : l.Pairwise fun k k' => m.insertedAt k < m.insertedAt k'
  past : ∀ k ∈ l, m.insertedAt k < m.now

namespace Lists

variable {m : AgedMap κ ν} {l : List κ} {k : κ} {v : ν}

omit [DecidableEq κ] in
theorem nil_empty : (empty : AgedMap κ ν).Lists [] where
  mem_iff := by simp [empty]
  sorted := .nil
  past := by simp

omit [DecidableEq κ] in
theorem nodup (h : m.Lists l) : l.Nodup :=
  h.sorted.imp fun hlt heq => by simp [heq] at hlt

theorem ncard_keys (h : m.Lists l) : m.keys.ncard = l.length := by
  have hkeys : m.keys = (l.toFinset : Set κ) := by
    ext k
    simp [keys, h.mem_iff]
  rw [hkeys, Set.ncard_coe_finset, List.toFinset_card_of_nodup h.nodup]

omit [DecidableEq κ] in
/-- The first key of the list is the one that was inserted longest ago. -/
theorem isOldest_iff {rest : List κ} (h : m.Lists (k :: rest)) (k' : κ) :
    m.IsOldest k' ↔ k' = k := by
  have hfirst := (List.pairwise_cons.1 h.sorted).1
  have hk : k ∈ m.keys := (h.mem_iff k).1 List.mem_cons_self
  constructor
  · rintro ⟨hk', hle⟩
    rcases List.mem_cons.1 ((h.mem_iff k').2 hk') with rfl | hrest
    · rfl
    · exact absurd (hle k hk) (Nat.not_le.2 (hfirst k' hrest))
  · rintro rfl
    refine ⟨hk, ?_⟩
    intro k₂ hk₂
    rcases List.mem_cons.1 ((h.mem_iff k₂).2 hk₂) with rfl | hrest
    · exact Nat.le_refl _
    · exact Nat.le_of_lt (hfirst k₂ hrest)

theorem evict_eq {rest : List κ} (h : m.Lists (k :: rest)) : m.evict = m.erase k := by
  unfold evict erase
  congr 1
  funext k'
  by_cases hk : k' = k
  · subst hk
    simp [(h.isOldest_iff k').2 rfl]
  · simp [hk, (h.isOldest_iff k').not.2 hk]

theorem erase (h : m.Lists l) (k : κ) : (m.erase k).Lists (l.filter fun k' => k' ≠ k) where
  mem_iff k' := by
    by_cases hk : k' = k
    · simp [AgedMap.erase, hk]
    · simp [AgedMap.erase, hk, h.mem_iff]
  sorted := h.sorted.filter _
  past k' hk' := h.past k' (List.mem_filter.1 hk').1

/-- Without the first key the rest of the list remains. -/
theorem erase_head {rest : List κ} (h : m.Lists (k :: rest)) : (m.erase k).Lists rest := by
  have hnot : k ∉ rest := (List.nodup_cons.1 h.nodup).1
  have hrest : (k :: rest).filter (fun k' => k' ≠ k) = rest := by
    rw [List.filter_cons_of_neg (by simp), List.filter_eq_self]
    intro k' hk'
    simp only [decide_eq_true_eq]
    rintro rfl
    exact hnot hk'
  have herase := h.erase k
  rwa [hrest] at herase

theorem insert (h : m.Lists l) (hk : m.lookup k = none) : (m.insert k v).Lists (l ++ [k]) := by
  have hnot : ∀ k' ∈ l, k' ≠ k := by
    rintro k' hk' rfl
    exact (h.mem_iff k').1 hk' hk
  refine ⟨?_, ?_, ?_⟩
  · intro k'
    by_cases heq : k' = k
    · simp [AgedMap.insert, heq]
    · simp [AgedMap.insert, heq, h.mem_iff]
  · rw [List.pairwise_append]
    refine ⟨?_, List.pairwise_singleton _ _, ?_⟩
    · refine h.sorted.imp_of_mem fun ha hb hlt => ?_
      simpa [AgedMap.insert, hnot _ ha, hnot _ hb] using hlt
    · intro k' hk' k₂ hk₂
      cases List.mem_singleton.1 hk₂
      simpa [AgedMap.insert, hnot k' hk'] using h.past k' hk'
  · intro k' hk'
    rcases List.mem_append.1 hk' with hold | hnew
    · simpa [AgedMap.insert, hnot k' hold] using Nat.lt_succ_of_lt (h.past k' hold)
    · cases List.mem_singleton.1 hnew
      simp [AgedMap.insert]

theorem replace (h : m.Lists l) (hk : m.lookup k ≠ none) : (m.replace k v).Lists l where
  mem_iff k' := by
    by_cases heq : k' = k
    · subst heq
      simp [AgedMap.replace, (h.mem_iff k').2 hk]
    · simp [AgedMap.replace, heq, h.mem_iff]
  sorted := h.sorted
  past := h.past

omit [DecidableEq κ] in
theorem clear (_ : m.Lists l) : m.clear.Lists [] where
  mem_iff := by simp [AgedMap.clear]
  sorted := .nil
  past := by simp

/-- A new key that is put into a full map takes the place of the first one. -/
theorem put_of_full {rest : List κ} {size : ℕ} (h : m.Lists (k :: rest))
    (hfull : (k :: rest).length = size) (k' : κ) (v : ν) :
    m.put size k' v = (m.erase k).insert k' v := by
  rw [put, if_pos (by rw [h.ncard_keys, hfull]), h.evict_eq]

theorem put_of_room {size : ℕ} (h : m.Lists l) (hroom : l.length ≠ size) (k' : κ) (v : ν) :
    m.put size k' v = m.insert k' v := by
  rw [put, if_neg (by rwa [h.ncard_keys])]

end Lists

end AgedMap
