import Mathlib.Data.List.Basic
import Mathlib.Logic.Function.Iterate
import Mathlib.Order.Lattice

/-!
# Lists of entries with increasing keys

A `SortedList` holds at most one entry for each key, in the order of the keys, and gives access to
the entries by key and by index. Adding a key that is present fails. `mem_drop_indexOfKey` says
what an index means in terms of the order: the entries behind it are those with a greater key.
-/

/-- Entries with strictly increasing keys. -/
structure SortedList (κ ν : Type*) [LinearOrder κ] where
  entries : List (κ × ν)
  sorted : entries.Pairwise fun e e' => e.1 < e'.1

namespace SortedList

variable {κ ν : Type*} [LinearOrder κ]

/-- The list without entries. -/
def empty : SortedList κ ν := ⟨[], .nil⟩

/-- The number of entries. -/
def count (l : SortedList κ ν) : Nat := l.entries.length

/-- The list has an entry with this key. -/
def ContainsKey (l : SortedList κ ν) (k : κ) : Prop := ∃ v, (k, v) ∈ l.entries

/-- The index of the entry with this key. -/
def indexOfKey (l : SortedList κ ν) (k : κ) : Option Nat := l.entries.findIdx? fun e => e.1 = k

/-- The value of the entry at an index. -/
def elementAt (l : SortedList κ ν) (i : Nat) : Option ν := l.entries[i]?.map Prod.snd

/-- Put an entry before the first one with a greater key. -/
def insertEntry (k : κ) (v : ν) : List (κ × ν) → List (κ × ν)
  | [] => [(k, v)]
  | e :: es => if k < e.1 then (k, v) :: e :: es else e :: insertEntry k v es

theorem mem_insertEntry {k : κ} {v : ν} {es : List (κ × ν)} {e : κ × ν} :
    e ∈ insertEntry k v es ↔ e = (k, v) ∨ e ∈ es := by
  induction es with
  | nil => simp [insertEntry]
  | cons e' es ih =>
    unfold insertEntry
    split
    · simp
    · simp only [List.mem_cons, ih]
      exact or_left_comm

theorem insertEntry_sorted {k : κ} {v : ν} {es : List (κ × ν)} (hk : ∀ w, (k, w) ∉ es)
    (hes : es.Pairwise fun e e' => e.1 < e'.1) :
    (insertEntry k v es).Pairwise fun e e' => e.1 < e'.1 := by
  induction es with
  | nil => simp [insertEntry]
  | cons e es ih =>
    obtain ⟨hhead, htail⟩ := List.pairwise_cons.1 hes
    unfold insertEntry
    split
    · next hlt =>
      refine List.pairwise_cons.2 ⟨?_, hes⟩
      intro e' he'
      rcases List.mem_cons.1 he' with rfl | he'
      · exact hlt
      · exact lt_trans hlt (hhead e' he')
    · next hge =>
      have hne : e.1 ≠ k := by
        rintro rfl
        exact hk e.2 List.mem_cons_self
      have hlt : e.1 < k := lt_of_le_of_ne (not_lt.1 hge) hne
      refine List.pairwise_cons.2 ⟨?_, ih (fun w hw => hk w (List.mem_cons_of_mem _ hw)) htail⟩
      intro e' he'
      rcases mem_insertEntry.1 he' with rfl | he'
      · exact hlt
      · exact hhead e' he'

/-- Add an entry; `none` when the key is present. -/
def add (l : SortedList κ ν) (k : κ) (v : ν) : Option (SortedList κ ν) :=
  if h : ∃ e ∈ l.entries, e.1 = k then none
  else some ⟨insertEntry k v l.entries,
    insertEntry_sorted (fun w hw => h ⟨(k, w), hw, rfl⟩) l.sorted⟩

/-- Remove the entry at an index. -/
def removeAt (l : SortedList κ ν) (i : Nat) : SortedList κ ν :=
  ⟨l.entries.eraseIdx i, l.sorted.sublist (List.eraseIdx_sublist _ _)⟩

/-! ## What the operations mean -/

theorem add_eq_none {l : SortedList κ ν} {k : κ} {v : ν} : l.add k v = none ↔ l.ContainsKey k := by
  unfold add ContainsKey
  split
  · next h =>
    obtain ⟨e, he, rfl⟩ := h
    exact iff_of_true rfl ⟨e.2, he⟩
  · next h =>
    refine iff_of_false (by simp) ?_
    rintro ⟨w, hw⟩
    exact h ⟨(k, w), hw, rfl⟩

theorem mem_of_add {l l' : SortedList κ ν} {k : κ} {v : ν} (h : l.add k v = some l') {e : κ × ν} :
    e ∈ l'.entries ↔ e = (k, v) ∨ e ∈ l.entries := by
  unfold add at h
  split at h
  · cases h
  · cases h
    exact mem_insertEntry

theorem indexOfKey_eq_none {l : SortedList κ ν} {k : κ} :
    l.indexOfKey k = none ↔ ¬l.ContainsKey k := by
  simp only [indexOfKey, ContainsKey, List.findIdx?_eq_none_iff, decide_eq_false_iff_not,
    not_exists]
  constructor
  · intro h v hv
    exact h (k, v) hv rfl
  · rintro h e he rfl
    exact h e.2 he

/-- The key that is found at an index is the key of the entry there. -/
theorem getElem_indexOfKey {l : SortedList κ ν} {k : κ} {i : Nat} (h : l.indexOfKey k = some i) :
    ∃ v, l.entries[i]? = some (k, v) := by
  obtain ⟨hi, hk, -⟩ := List.findIdx?_eq_some_iff_getElem.1 h
  have hkey : l.entries[i].1 = k := by simpa using hk
  exact ⟨l.entries[i].2, by rw [List.getElem?_eq_getElem hi, ← hkey]⟩

/-- The entries behind the index of a key are those with a greater key. -/
theorem mem_drop_indexOfKey {l : SortedList κ ν} {k : κ} {i : Nat} (h : l.indexOfKey k = some i)
    {e : κ × ν} : e ∈ l.entries.drop (i + 1) ↔ e ∈ l.entries ∧ k < e.1 := by
  obtain ⟨v, hv⟩ := getElem_indexOfKey h
  obtain ⟨hi, hget⟩ := List.getElem?_eq_some_iff.1 hv
  have hsplit : l.entries = l.entries.take i ++ (k, v) :: l.entries.drop (i + 1) := by
    rw [← hget, List.getElem_cons_drop, List.take_append_drop]
  have hsorted := l.sorted
  rw [hsplit] at hsorted
  obtain ⟨-, hright, hleft⟩ := List.pairwise_append.1 hsorted
  have hbefore : ∀ e ∈ l.entries.take i, e.1 < k := fun e he => hleft e he _ List.mem_cons_self
  have hafter : ∀ e ∈ l.entries.drop (i + 1), k < e.1 := (List.pairwise_cons.1 hright).1
  constructor
  · intro he
    exact ⟨List.mem_of_mem_drop he, hafter e he⟩
  · rintro ⟨he, hlt⟩
    rw [hsplit, List.mem_append, List.mem_cons] at he
    rcases he with he | rfl | he
    · exact absurd (hbefore e he) (lt_asymm hlt)
    · exact absurd hlt (lt_irrefl _)
    · exact he

/-- Removing the first entry again and again drops a front part of the list. -/
theorem entries_iterate_removeAt_zero (l : SortedList κ ν) (n : Nat) :
    ((fun l => removeAt l 0)^[n] l).entries = l.entries.drop n := by
  induction n generalizing l with
  | zero => rfl
  | succ n ih =>
    rw [Function.iterate_succ_apply, ih]
    simp [removeAt]

end SortedList
