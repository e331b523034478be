import IFramework.Infrastructure.ConcurrentLimitedSizeDictionary

/-!
# The contract of `IDictionary`

What `Remove` and `CopyTo` of `ConcurrentLimitedSizeDictionary` do, next to what `IDictionary` asks
of them. `Remove` reports what `TryRemove` gives, which is whether the call threw (`remove_iff`),
and the overload for a pair forgets the value. `CopyTo` takes the offset off the array index and
adds it to the index of the key (`copiesAll_iff`).
-/

namespace IFramework.Infrastructure.ConcurrentLimitedSizeDictionary

variable {κ ν : Type} [DecidableEq κ]

/-! ## Remove -/

/-- The key is not null, and there is an entry for it. -/
def Present (d : ConcurrentLimitedSizeDictionary κ ν) (key : Option κ) : Prop :=
  ∃ k, key = some k ∧ k ∈ d.dict

/-- The entry is in the dictionary, with this value. -/
def PresentPair (d : ConcurrentLimitedSizeDictionary κ ν) (item : Option κ × ν) : Prop :=
  ∃ k, item.1 = some k ∧ d.dict.lookup k = some item.2

/-- `t` is `d` without the entry of the key. -/
structure Without (d t : ConcurrentLimitedSizeDictionary κ ν) (key : Option κ) : Prop where
  size : t.size = d.size
  lookup : ∀ k, t.dict.lookup k = if key = some k then none else d.dict.lookup k
  queue : ∀ k, key = some k → t.queue = d.queue.erase k

/-- `Remove` of a key returns whether the key was present. -/
def ReportsKey (d : ConcurrentLimitedSizeDictionary κ ν) (key : Option κ) : Prop :=
  (Present d key → (d.remove key).2 = .returnedBool true) ∧
    (¬ Present d key → (d.remove key).2 = .returnedBool false)

/-- `Remove` of a pair removes it and returns `true` if it is in the dictionary; if not, it returns
`false` and leaves everything as it was. -/
def RemovesPair (d : ConcurrentLimitedSizeDictionary κ ν) (item : Option κ × ν) : Prop :=
  (PresentPair d item → Without d (d.perform (.removePair item)).1 item.1 ∧
      (d.perform (.removePair item)).2 = .returnedBool true) ∧
    (¬ PresentPair d item → d.perform (.removePair item) = (d, .returnedBool false))

section Remove

variable {d : ConcurrentLimitedSizeDictionary κ ν} {k : κ}

theorem without_remove (hnodup : d.queue.Nodup) (k : κ) :
    Without d (d.remove (some k)).1 (some k) where
  size := rfl
  lookup k' := by
    by_cases hk : k' = k
    · subst hk
      simp [remove, tryRemove]
    · simp [remove, tryRemove, Ne.symm hk, Finmap.lookup_erase_ne hk]
  queue := by
    rintro _ ⟨⟩
    rw [hnodup.erase_eq_filter]
    refine List.filter_congr ?_
    intro item _
    rw [Bool.eq_iff_iff]
    simp

theorem reportsKey_iff (d : ConcurrentLimitedSizeDictionary κ ν) (key : Option κ) :
    ReportsKey d key ↔ key = none ∨ Present d key := by
  cases key with
  | none =>
    have habsent : ¬ Present d none := by
      rintro ⟨k, hk, -⟩
      cases hk
    exact iff_of_true ⟨fun h => absurd h habsent, fun _ => rfl⟩ (.inl rfl)
  | some k =>
    constructor
    · rintro ⟨-, habsent⟩
      right
      by_contra hnot
      cases habsent hnot
    · rintro (hnone | hpresent)
      · cases hnone
      · exact ⟨fun _ => rfl, fun hnot => absurd hpresent hnot⟩

theorem removesPair_iff (hnodup : d.queue.Nodup) (item : Option κ × ν) :
    RemovesPair d item ↔ item.1 = none ∨ PresentPair d item := by
  obtain ⟨key, v⟩ := item
  cases key with
  | none =>
    have habsent : ¬ PresentPair d (none, v) := by
      rintro ⟨k, hk, -⟩
      cases hk
    exact iff_of_true ⟨fun h => absurd h habsent, fun _ => rfl⟩ (.inl rfl)
  | some k =>
    constructor
    · rintro ⟨-, habsent⟩
      right
      by_contra hnot
      have houtcome : (d.remove (some k)).2 = .returnedBool false :=
        congrArg Prod.snd (habsent hnot)
      cases houtcome
    · rintro (hnone | hpresent)
      · cases hnone
      · exact ⟨fun _ => ⟨without_remove hnodup k, rfl⟩, fun hnot => absurd hpresent hnot⟩

theorem queue_perform (h : d.size = 0 ∧ d.queue = []) (operation : Operation κ ν) :
    (d.perform operation).1.size = 0 ∧ (d.perform operation).1.queue = [] := by
  have hadd : ∀ key value, (d.add key value).1.size = 0 ∧ (d.add key value).1.queue = [] := by
    intro key value
    cases key with
    | none => exact h
    | some k =>
      simp only [add, h.1, h.2, List.length_nil, if_true]
      split
      · exact h
      · exact ⟨rfl, rfl⟩
  have hremove : ∀ key, (d.remove key).1.size = 0 ∧ (d.remove key).1.queue = [] := by
    intro key
    cases key with
    | none => exact h
    | some k => exact ⟨h.1, by simp [remove, tryRemove, h.2]⟩
  cases operation with
  | add key value => exact hadd key value
  | addPair item => exact hadd item.1 item.2
  | remove key => exact hremove key
  | removePair item => exact hremove item.1
  | setItem key value =>
    cases key with
    | none => exact h
    | some k =>
      simp only [perform, setItem]
      split
      · exact h
      · exact hadd (some k) value
  | clear => exact ⟨h.1, rfl⟩

/-- A dictionary of size zero puts nothing into its queue. -/
theorem queue_of_size_zero (operations : List (Operation κ ν)) :
    (after 0 operations : ConcurrentLimitedSizeDictionary κ ν).queue = [] := by
  have hkept : ∀ d : ConcurrentLimitedSizeDictionary κ ν, d.size = 0 ∧ d.queue = [] →
      (operations.foldl (fun d operation => (d.perform operation).1) d).queue = [] := by
    induction operations with
    | nil => exact fun d h => h.2
    | cons operation operations ih => exact fun d h => ih _ (queue_perform h operation)
  exact hkept _ ⟨rfl, rfl⟩

theorem nodup_queue (size : Nat) (operations : List (Operation κ ν)) :
    (after size operations).queue.Nodup := by
  rcases Nat.eq_zero_or_pos size with rfl | hsize
  · rw [queue_of_size_zero]
    exact List.nodup_nil
  · exact ((Refines.new hsize).foldl operations).1.lists.nodup

/-- In every state that operations lead to, `Remove` meets the contract exactly for what is present
and for null keys. -/
theorem remove_iff (size : Nat) (operations : List (Operation κ ν)) :
    (∀ key, ReportsKey (after size operations) key ↔
      key = none ∨ Present (after size operations) key) ∧
    ∀ item, RemovesPair (after size operations) item ↔
      item.1 = none ∨ PresentPair (after size operations) item :=
  ⟨reportsKey_iff _, removesPair_iff (nodup_queue size operations)⟩

/-- An absent key is reported as removed, and a pair is removed although its value is another. -/
theorem not_removes_absent :
    ¬ ReportsKey (after 2 [] : ConcurrentLimitedSizeDictionary String Nat) (some "a") ∧
      ¬ RemovesPair (after 2 [.add (some "a") 1]) (some "a", 2) := by
  constructor
  · rintro ⟨-, habsent⟩
    have hnot : ¬ Present (after 2 [] : ConcurrentLimitedSizeDictionary String Nat) (some "a") := by
      rintro ⟨k, -, hmem⟩
      exact Finmap.notMem_empty hmem
    cases habsent hnot
  · rintro ⟨-, habsent⟩
    have hnot : ¬ PresentPair (after 2 [.add (some "a") 1]) (some "a", 2) := by
      rintro ⟨k, hk, hlookup⟩
      cases hk
      revert hlookup
      decide
    have houtcome := congrArg Prod.snd (habsent hnot)
    cases houtcome

end Remove

/-! ## CopyTo -/

/-- An array, with the writes to it. -/
structure Target (κ ν : Type) where
  cells : List (Option κ × ν)
  written : List (Nat × (Option κ × ν))

/-- `array[i] = item`, which throws where there is no such cell. -/
def Target.write (array : Target κ ν) (i : Nat) (item : Option κ × ν) : Option (Target κ ν) :=
  if i < array.cells.length then
    some ⟨array.cells.set i item, array.written ++ [(i, item)]⟩
  else none

/-- One round of `CopyTo`; `keys` is `_dict.Keys.ToArray()`. -/
def copyNext (d : ConcurrentLimitedSizeDictionary κ ν) (keys : List κ) (arrayIndex : Nat)
    (array : Target κ ν) (i : Nat) : Option (Target κ ν) := do
  let key ← keys[i + arrayIndex]?
  let value ← d.dict.lookup key
  array.write i (some key, value)

/-- `CopyTo`, `none` where it throws. -/
def copyTo (d : ConcurrentLimitedSizeDictionary κ ν) (keys : List κ) (array : Target κ ν)
    (arrayIndex : Nat) : Option (Target κ ν) :=
  (List.range (d.count - arrayIndex)).foldlM (copyNext d keys arrayIndex) array

/-- The keys of the dictionary in the order in which it enumerates them. -/
structure Enumerates (d : ConcurrentLimitedSizeDictionary κ ν) (keys : List κ) : Prop where
  nodup : keys.Nodup
  mem_iff : ∀ k, k ∈ keys ↔ k ∈ d.dict

/-- The entries of the dictionary. -/
def entries (d : ConcurrentLimitedSizeDictionary κ ν) (keys : List κ) : List (Option κ × ν) :=
  keys.filterMap fun k => (d.dict.lookup k).map fun v => (some k, v)

/-- `CopyTo` writes the entries, each exactly once, into the cells from `arrayIndex` on, and writes
nothing else. -/
def CopiesAll (d : ConcurrentLimitedSizeDictionary κ ν) (keys : List κ)
    (array : List (Option κ × ν)) (arrayIndex : Nat) : Prop :=
  ∃ result, d.copyTo keys ⟨array, []⟩ arrayIndex = some result ∧
    (result.written.map Prod.fst).Perm (List.range' arrayIndex d.count) ∧
    (result.written.map Prod.snd).Perm (d.entries keys)

section CopyTo

variable {d : ConcurrentLimitedSizeDictionary κ ν} {keys : List κ} {array : List (Option κ × ν)}
  {arrayIndex : Nat}

theorem Enumerates.count_eq (h : Enumerates d keys) : d.count = keys.length := by
  have hkeys : d.dict.keys = keys.toFinset := by
    ext k
    rw [Finmap.mem_keys, List.mem_toFinset, h.mem_iff]
  rw [count, hkeys, List.toFinset_card_of_nodup h.nodup]

theorem Enumerates.exists_lookup (h : Enumerates d keys) {k : κ} (hk : k ∈ keys) :
    ∃ v, d.dict.lookup k = some v :=
  Finmap.mem_iff.1 ((h.mem_iff k).1 hk)

theorem getElem?_entries (h : ∀ k ∈ keys, ∃ v, d.dict.lookup k = some v) (i : Nat) :
    (d.entries keys)[i]? =
      keys[i]?.bind fun k => (d.dict.lookup k).map fun v => (some k, v) := by
  induction keys generalizing i with
  | nil => rfl
  | cons k keys ih =>
    obtain ⟨⟨v, hv⟩, hrest⟩ := List.forall_mem_cons.1 h
    rw [entries, List.filterMap_cons_some (b := (some k, v)) (by rw [hv]; rfl)]
    cases i with
    | zero => simp [hv]
    | succ i => exact ih hrest i

theorem Enumerates.length_entries (h : Enumerates d keys) : (d.entries keys).length = d.count := by
  rw [h.count_eq, entries, List.filterMap_length_eq_length]
  intro k hk
  obtain ⟨v, hv⟩ := h.exists_lookup hk
  rw [hv]
  rfl

theorem Enumerates.copyNext_eq (h : Enumerates d keys) (target : Target κ ν) (i : Nat) :
    d.copyNext keys arrayIndex target i =
      (d.entries keys)[i + arrayIndex]?.bind (target.write i) := by
  rw [getElem?_entries fun _ hk => h.exists_lookup hk, copyNext]
  cases keys[i + arrayIndex]? with
  | none => rfl
  | some k => cases hv : d.dict.lookup k <;> simp [hv]

theorem zip_range_succ {α : Type} {l : List α} {n : Nat} {x : α} (h : l[n]? = some x) :
    (List.range (n + 1)).zip l = (List.range n).zip l ++ [(n, x)] := by
  obtain ⟨hn, hx⟩ := List.getElem?_eq_some_iff.1 h
  have hl : l = l.take n ++ x :: l.drop (n + 1) := by
    rw [← hx, List.getElem_cons_drop, List.take_append_drop]
  have hlength : (List.range n).length = (l.take n).length := by
    rw [List.length_range, List.length_take]
    omega
  have hlast : (List.range n).zip l = (List.range n).zip (l.take n) := by
    conv_lhs => rw [hl, ← List.append_nil (List.range n)]
    rw [List.zip_append hlength]
    simp
  rw [hlast, List.range_succ]
  conv_lhs => rw [hl]
  rw [List.zip_append hlength]
  rfl

/-- What the first rounds write. -/
theorem Enumerates.foldlM_copyNext (h : Enumerates d keys) (array : List (Option κ × ν))
    (arrayIndex n : Nat) (hn : n + arrayIndex ≤ d.count) (harray : n ≤ array.length) :
    ∃ result, (List.range n).foldlM (d.copyNext keys arrayIndex) ⟨array, []⟩ = some result ∧
      result.cells.length = array.length ∧
      result.written = (List.range n).zip ((d.entries keys).drop arrayIndex) := by
  induction n with
  | zero => exact ⟨⟨array, []⟩, rfl, rfl, rfl⟩
  | succ n ih =>
    obtain ⟨target, hfold, hlength, hwritten⟩ := ih (by omega) (by omega)
    obtain ⟨item, hitem⟩ : ∃ item, (d.entries keys)[n + arrayIndex]? = some item :=
      ⟨_, List.getElem?_eq_getElem (by rw [h.length_entries]; omega)⟩
    have hdrop : ((d.entries keys).drop arrayIndex)[n]? = some item := by
      rw [List.getElem?_drop, Nat.add_comm, hitem]
    have hwrite : target.write n item =
        some ⟨target.cells.set n item, target.written ++ [(n, item)]⟩ :=
      if_pos (by omega)
    refine ⟨⟨target.cells.set n item, target.written ++ [(n, item)]⟩, ?_, ?_, ?_⟩
    · rw [List.range_succ, List.foldlM_append, hfold]
      simp [h.copyNext_eq, hitem, hwrite]
    · simpa using hlength
    · rw [hwritten, zip_range_succ hdrop]

theorem Enumerates.copyTo_eq (h : Enumerates d keys)
    (harray : arrayIndex + d.count ≤ array.length) :
    ∃ result, d.copyTo keys ⟨array, []⟩ arrayIndex = some result ∧
      result.cells.length = array.length ∧
      result.written.map Prod.fst = List.range (d.count - arrayIndex) ∧
      result.written.map Prod.snd = (d.entries keys).drop arrayIndex := by
  by_cases hle : arrayIndex ≤ d.count
  · obtain ⟨result, hresult, hlength, hwritten⟩ :=
      h.foldlM_copyNext array arrayIndex (d.count - arrayIndex) (by omega) (by omega)
    have hdrop : ((d.entries keys).drop arrayIndex).length = d.count - arrayIndex := by
      rw [List.length_drop, h.length_entries]
    refine ⟨result, hresult, hlength, ?_, ?_⟩
    · rw [hwritten, List.map_fst_zip (by simp [hdrop])]
    · rw [hwritten, List.map_snd_zip (by simp [hdrop])]
  · have hzero : d.count - arrayIndex = 0 := by omega
    refine ⟨⟨array, []⟩, ?_, rfl, ?_, ?_⟩
    · rw [copyTo, hzero]
      rfl
    · rw [hzero]
      rfl
    · rw [List.drop_of_length_le (by rw [h.length_entries]; omega)]
      rfl

/-- `CopyTo` does what it should exactly if the array index is zero, or there is nothing to copy. -/
theorem copiesAll_iff (h : Enumerates d keys) (harray : arrayIndex + d.count ≤ array.length) :
    CopiesAll d keys array arrayIndex ↔ arrayIndex = 0 ∨ d.count = 0 := by
  obtain ⟨result, hresult, -, hcells, hitems⟩ := h.copyTo_eq harray
  constructor
  · rintro ⟨result', hresult', hperm, -⟩
    rw [hresult] at hresult'
    cases hresult'
    rw [hcells] at hperm
    have hlength := hperm.length_eq
    rw [List.length_range, List.length_range'] at hlength
    omega
  · intro hcases
    refine ⟨result, hresult, ?_, ?_⟩
    · rw [hcells]
      rcases hcases with rfl | hzero
      · rw [Nat.sub_zero, List.range_eq_range']
      · rw [hzero, Nat.zero_sub]
        rfl
    · rw [hitems]
      rcases hcases with rfl | hzero
      · rfl
      · have hnil : d.entries keys = [] :=
          List.eq_nil_of_length_eq_zero (h.length_entries.trans hzero)
        rw [hnil, List.drop_nil]

/-- Cells are what the writes made of them. -/
def Target.Records (array : List (Option κ × ν)) (result : Target κ ν) : Prop :=
  result.cells = result.written.foldl (fun cells write => cells.set write.1 write.2) array

theorem records_copyTo {result : Target κ ν}
    (h : d.copyTo keys ⟨array, []⟩ arrayIndex = some result) : result.Records array := by
  have hkept : ∀ (rounds : List Nat) (target : Target κ ν), target.Records array →
      rounds.foldlM (d.copyNext keys arrayIndex) target = some result → result.Records array := by
    intro rounds
    induction rounds with
    | nil =>
      intro target htarget h
      cases h
      exact htarget
    | cons i rounds ih =>
      intro target htarget h
      rw [List.foldlM_cons] at h
      obtain ⟨target', hnext, h⟩ := Option.bind_eq_some_iff.1 h
      obtain ⟨key, -, hnext⟩ := Option.bind_eq_some_iff.1 hnext
      obtain ⟨value, -, hwrite⟩ := Option.bind_eq_some_iff.1 hnext
      obtain ⟨-, hwrite⟩ := Option.ite_none_right_eq_some.1 hwrite
      obtain rfl := Option.some.inj hwrite
      refine ih _ ?_ h
      have hcells : target.cells =
          target.written.foldl (fun cells write => cells.set write.1 write.2) array := htarget
      simp only [Target.Records, List.foldl_append, ← hcells]
      rfl
  exact hkept _ ⟨array, []⟩ rfl h

omit [DecidableEq κ] in
theorem length_of_written (writes : List (Nat × (Option κ × ν))) :
    (writes.foldl (fun cells write => cells.set write.1 write.2) array).length = array.length := by
  induction writes generalizing array with
  | nil => rfl
  | cons write writes ih => rw [List.foldl_cons, ih, List.length_set]

omit [DecidableEq κ] in
theorem getElem?_of_not_written {writes : List (Nat × (Option κ × ν))} {j : Nat}
    (hj : j ∉ writes.map Prod.fst) :
    (writes.foldl (fun cells write => cells.set write.1 write.2) array)[j]? = array[j]? := by
  induction writes generalizing array with
  | nil => rfl
  | cons write writes ih =>
    rw [List.map_cons, List.mem_cons, not_or] at hj
    rw [List.foldl_cons, ih hj.2, List.getElem?_set_ne (Ne.symm hj.1)]

omit [DecidableEq κ] in
theorem getElem?_of_written {writes : List (Nat × (Option κ × ν))} {j : Nat} {item : Option κ × ν}
    (hnodup : (writes.map Prod.fst).Nodup) (hmem : (j, item) ∈ writes) (hj : j < array.length) :
    (writes.foldl (fun cells write => cells.set write.1 write.2) array)[j]? = some item := by
  induction writes generalizing array with
  | nil => cases hmem
  | cons write writes ih =>
    rw [List.map_cons, List.nodup_cons] at hnodup
    rw [List.foldl_cons]
    rcases List.mem_cons.1 hmem with rfl | hmem
    · rw [getElem?_of_not_written hnodup.1, List.getElem?_set_self hj]
    · exact ih hnodup.2 hmem (by rw [List.length_set]; exact hj)

theorem map_getElem?_range' {α : Type} {l : List α} {i n : Nat} (h : i + n ≤ l.length) :
    (List.range' i n).map (fun j => l[j]?) = ((l.drop i).take n).map some := by
  induction n generalizing i with
  | zero => simp
  | succ n ih =>
    rw [List.range'_succ, List.map_cons, ih (by omega),
      List.drop_eq_getElem_cons (by omega : i < l.length), List.take_succ_cons, List.map_cons,
      List.getElem?_eq_getElem (by omega)]

/-- The array after it: the entries stand in the cells from `arrayIndex` on, in some order, and the
other cells are unchanged. -/
theorem CopiesAll.cells (h : CopiesAll d keys array arrayIndex)
    (harray : arrayIndex + d.count ≤ array.length) :
    ∃ result, d.copyTo keys ⟨array, []⟩ arrayIndex = some result ∧
      ((result.cells.drop arrayIndex).take d.count).Perm (d.entries keys) ∧
      ∀ j, j < arrayIndex ∨ arrayIndex + d.count ≤ j → result.cells[j]? = array[j]? := by
  obtain ⟨result, hresult, hcells, hitems⟩ := h
  have hrecords : result.cells =
      result.written.foldl (fun cells write => cells.set write.1 write.2) array :=
    records_copyTo hresult
  have hmem : ∀ j, j ∈ result.written.map Prod.fst ↔ arrayIndex ≤ j ∧ j < arrayIndex + d.count := by
    intro j
    rw [hcells.mem_iff, List.mem_range'_1]
  refine ⟨result, hresult, ?_, ?_⟩
  · have hnodup : (result.written.map Prod.fst).Nodup :=
      hcells.nodup_iff.2 List.nodup_range'
    have hwritten : (result.written.map Prod.fst).map (fun j => result.cells[j]?) =
        (result.written.map Prod.snd).map some := by
      rw [List.map_map, List.map_map]
      refine List.map_congr_left ?_
      intro write hwrite
      have hj := (hmem write.1).1 (List.mem_map_of_mem hwrite)
      rw [Function.comp_apply, hrecords]
      exact getElem?_of_written hnodup hwrite (by omega)
    have hwindow : (List.range' arrayIndex d.count).map (fun j => result.cells[j]?) =
        ((result.cells.drop arrayIndex).take d.count).map some := by
      refine map_getElem?_range' ?_
      rw [hrecords, length_of_written]
      exact harray
    have hperm := hcells.map (fun j => result.cells[j]?)
    rw [hwritten, hwindow, List.map_perm_map_iff (Option.some_injective _)] at hperm
    exact hperm.symm.trans hitems
  · intro j hj
    rw [hrecords]
    refine getElem?_of_not_written ?_
    rw [hmem]
    omega

end CopyTo

/-- Two entries. -/
def sampleDictionary : ConcurrentLimitedSizeDictionary String Nat :=
  after 2 [.add (some "a") 1, .add (some "b") 2]

theorem enumerates_sampleDictionary : Enumerates sampleDictionary ["a", "b"] where
  nodup := by decide
  mem_iff k := by
    have hdict : sampleDictionary.dict = Finmap.insert "b" 2 (Finmap.insert "a" 1 ∅) := rfl
    rw [hdict, Finmap.mem_insert, Finmap.mem_insert]
    simp [Finmap.notMem_empty, or_comm]

theorem copiesAll_iff_sampleDictionary :
    Enumerates sampleDictionary ["a", "b"] ∧
      CopiesAll sampleDictionary ["a", "b"] [(none, 0), (none, 0), (none, 0)] 0 :=
  ⟨enumerates_sampleDictionary,
    (copiesAll_iff enumerates_sampleDictionary (by decide)).2 (.inl rfl)⟩

/-- With the array index 1 only the second entry is written, and into the first cell. -/
theorem not_copiesAll_sampleDictionary :
    Enumerates sampleDictionary ["a", "b"] ∧
      ¬ CopiesAll sampleDictionary ["a", "b"] [(none, 0), (none, 0), (none, 0)] 1 := by
  refine ⟨enumerates_sampleDictionary, ?_⟩
  rintro ⟨result, hresult, hperm, -⟩
  have hcopied : sampleDictionary.copyTo ["a", "b"] ⟨[(none, 0), (none, 0), (none, 0)], []⟩ 1 =
      some ⟨[(some "b", 2), (none, 0), (none, 0)], [(0, some "b", 2)]⟩ := rfl
  rw [hcopied] at hresult
  cases hresult
  exact absurd hperm.length_eq (by decide)

end IFramework.Infrastructure.ConcurrentLimitedSizeDictionary
