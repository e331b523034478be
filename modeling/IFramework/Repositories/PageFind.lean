import IFramework.Repositories.OrderExpression
import IFramework.Theory.Paging

/-!
# Pages of a result

`DoPageFind` sorts the entities and takes one page of them. How many elements it skips is a product
of two `int`s, which wraps, and `Skip` takes a negative number for zero. A page is the one that was
asked for exactly if the product does not wrap, or what it wraps to is behind the end as well
(`onPage_iff`). So the pages of a list that end within the range of an `int` partition it
(`pages_partition`), while of the pages behind its end some are not empty, but for pages of one
element (`forall_onPage_iff`).
-/

namespace IFramework.Repositories

open Paging

variable {Ty Member Op V : Type}

namespace Queryable

variable (query : Queryable V)

/-- `Skip`; a negative count is zero. -/
def skip (count : Int32) : Queryable V := ⟨query.elements.drop count.toNatClampNeg, []⟩

/-- `Take`. -/
def take (count : Int32) : Queryable V := ⟨query.elements.take count.toNatClampNeg, []⟩

/-- `Count`, which overflows where there are more elements than the greatest `int`. -/
def count : Option Nat :=
  if query.elements.length ≤ 2147483647 then some query.elements.length else none

/-- `GetPageElements`. -/
def getPageElements (pageIndex pageSize : Int32) : Queryable V :=
  (query.skip (pageIndex * pageSize)).take pageSize

end Queryable

/-- How `DoPageFind` ends without a page. -/
inductive PageFindException where
  | argumentException (message : String)
  | argumentNullException (message : String)
  /-- An order expression has no key. -/
  | mergeFailed
  | overflowException
  deriving DecidableEq

section DoPageFind

variable (S : Runtime Ty Member Op V) (type : Ty) (dbSet : Queryable V)

/-- `DoPageFind`. The specification is given by its predicate; `AllSpecification` is satisfied by
all entities. -/
def doPageFind (pageIndex pageSize : Int32) (specification : Option (V → Bool))
    (orderExpressions : Option (List (OrderExpression Member Op))) :
    Except PageFindException (Queryable V × Nat) :=
  if pageIndex < 0 then .error (.argumentException "InvalidPageIndex")
  else if pageSize ≤ 0 then .error (.argumentException "InvalidPageCount")
  else if (orderExpressions.getD []).isEmpty then
    .error (.argumentNullException "OrderByExpressionCannotBeNull")
  else
    let predicate := specification.getD fun _ => true
    match findAll S type dbSet (some predicate) (orderExpressions.getD []) with
    | none => .error .mergeFailed
    | some query =>
      match query.count with
      | none => .error .overflowException
      | some total => .ok (query.getPageElements pageIndex pageSize, total)

/-- `DoPageFindAsync`: the same, but for the call that counts. -/
def doPageFindAsync (pageIndex pageSize : Int32) (specification : Option (V → Bool))
    (orderExpressions : Option (List (OrderExpression Member Op))) :
    Except PageFindException (Queryable V × Nat) :=
  doPageFind S type dbSet pageIndex pageSize specification orderExpressions

end DoPageFind

/-! ## The positions on a page -/

/-- The elements of a query with their positions. -/
def Queryable.indexed (query : Queryable V) : Queryable (V × Nat) := ⟨query.elements.zipIdx, []⟩

/-- The page has exactly the elements at the positions `i * s` to `(i + 1) * s - 1`. -/
def OnPage (query : Queryable V) (i s : Int32) : Prop :=
  (query.indexed.getPageElements i s).elements =
    page query.elements.zipIdx s.toNatClampNeg i.toNatClampNeg

section Pages

variable {query result : Queryable V} {i s : Int32} {total : Nat}

@[simp] theorem elements_unsorted (source : List V) : (⟨source, []⟩ : Queryable V).elements = source :=
  Comparer.sort_indifferent source

theorem elements_getPageElements (query : Queryable V) (i s : Int32) :
    (query.getPageElements i s).elements =
      window query.elements s.toNatClampNeg (i * s).toNatClampNeg := by
  simp only [Queryable.getPageElements, Queryable.take, Queryable.skip, elements_unsorted, window]

/-- Which elements are on a page depends on their positions alone. -/
theorem elements_indexed_getPageElements (query : Queryable V) (i s : Int32) :
    (query.getPageElements i s).elements =
      (query.indexed.getPageElements i s).elements.map Prod.fst := by
  rw [elements_getPageElements, elements_getPageElements, map_window, Queryable.indexed,
    elements_unsorted, List.zipIdx_map_fst]

theorem toNatClampNeg_pos (hs : 0 < s) : 0 < s.toNatClampNeg := by
  have hs' : 0 < s.toInt := Int32.lt_iff_toInt_lt.1 hs
  rw [Int32.toNatClampNeg]
  omega

/-- The product of two numbers that are not negative, where it does not wrap. -/
theorem toNatClampNeg_mul (hi : 0 ≤ i) (hs : 0 < s) (h : i.toInt * s.toInt ≤ 2147483647) :
    (i * s).toNatClampNeg = i.toNatClampNeg * s.toNatClampNeg := by
  have hi' : 0 ≤ i.toInt := Int32.le_iff_toInt_le.1 hi
  have hs' : 0 ≤ s.toInt := Int32.le_iff_toInt_le.1 (Int32.le_of_lt hs)
  have hmul : 0 ≤ i.toInt * s.toInt := Int.mul_nonneg hi' hs'
  have hwrap : (i * s).toInt = i.toInt * s.toInt := by
    rw [Int32.toInt_mul, Int.bmod_eq_of_le]
    · omega
    · omega
  rw [Int32.toNatClampNeg, hwrap, Int.toNat_mul hi' hs']
  rfl

/-- Where the product wraps, fewer elements are skipped. -/
theorem toNatClampNeg_mul_lt (h : 2147483647 < i.toInt * s.toInt) (hi : 0 ≤ i) (hs : 0 < s) :
    (i * s).toNatClampNeg < i.toNatClampNeg * s.toNatClampNeg := by
  have hi' : 0 ≤ i.toInt := Int32.le_iff_toInt_le.1 hi
  have hs' : 0 ≤ s.toInt := Int32.le_iff_toInt_le.1 (Int32.le_of_lt hs)
  have hmul : (i.toInt * s.toInt).toNat = i.toNatClampNeg * s.toNatClampNeg := Int.toNat_mul hi' hs'
  have hlt := (i * s).toNatClampNeg_lt
  omega

/-- A page has the elements at its positions exactly if the product does not wrap, or it wraps to a
number that is behind the end of the list. -/
theorem onPage_iff (query : Queryable V) (hi : 0 ≤ i) (hs : 0 < s) :
    OnPage query i s ↔
      i.toInt * s.toInt ≤ 2147483647 ∨ query.elements.length ≤ (i * s).toNatClampNeg := by
  rw [OnPage, elements_getPageElements, Queryable.indexed, elements_unsorted, page]
  have hs' := toNatClampNeg_pos hs
  by_cases hwrap : i.toInt * s.toInt ≤ 2147483647
  · rw [toNatClampNeg_mul hi hs hwrap]
    exact iff_of_true rfl (.inl hwrap)
  · rw [window_zipIdx_eq_iff hs' (toNatClampNeg_mul_lt (Int.not_le.1 hwrap) hi hs)]
    exact (or_iff_right hwrap).symm

/-- A product that wraps once is negative, so that nothing is skipped. -/
theorem toNatClampNeg_mul_eq_zero (h : 2147483647 < i.toInt * s.toInt)
    (h' : i.toInt * s.toInt < 4294967296) : (i * s).toNatClampNeg = 0 := by
  have hwrap : (i * s).toInt < 0 := by
    rw [Int32.toInt_mul, Int.bmod_def]
    split <;> omega
  rw [Int32.toNatClampNeg]
  omega

/-- Some page index is just great enough for the product to wrap. -/
theorem exists_mul_wraps (htwo : 2 ≤ s.toInt) :
    ∃ i : Int32, 0 ≤ i ∧ 2147483647 < i.toInt * s.toInt ∧ i.toInt * s.toInt < 4294967296 := by
  have hsize := s.toInt_lt
  have hmod := Int.emod_add_mul_ediv (2147483647 + s.toInt) s.toInt
  have hlt := Int.emod_lt_of_pos (2147483647 + s.toInt) (by omega : 0 < s.toInt)
  have hnonneg := Int.emod_nonneg (2147483647 + s.toInt) (by omega : s.toInt ≠ 0)
  have hle : (2147483647 + s.toInt) / s.toInt < 2147483648 :=
    Int.ediv_lt_of_lt_mul (by omega) (by omega)
  have hpos : 0 ≤ (2147483647 + s.toInt) / s.toInt := Int.ediv_nonneg (by omega) (by omega)
  have htoInt : (Int32.ofInt ((2147483647 + s.toInt) / s.toInt)).toInt =
      (2147483647 + s.toInt) / s.toInt := Int32.toInt_ofInt_of_le (by omega) hle
  refine ⟨.ofInt ((2147483647 + s.toInt) / s.toInt), ?_, ?_⟩
  · rw [Int32.le_iff_toInt_le, htoInt]
    exact hpos
  · rw [htoInt, Int.mul_comm]
    omega

/-- Only for pages of one element each index gives the page that belongs to it. -/
theorem forall_onPage_iff (query : Queryable V) (hs : 0 < s) :
    (∀ i, 0 ≤ i → OnPage query i s) ↔ s = 1 ∨ query.elements = [] := by
  have hs' : 0 < s.toInt := Int32.lt_iff_toInt_lt.1 hs
  constructor
  · intro hall
    by_contra hnot
    obtain ⟨hone, hnil⟩ := not_or.1 hnot
    have htwo : 2 ≤ s.toInt := by
      by_contra hlt
      refine hone (Int32.toInt.inj ?_)
      change s.toInt = 1
      omega
    obtain ⟨i, hi, hwrap, hwrap'⟩ := exists_mul_wraps htwo
    rcases (onPage_iff query hi hs).1 (hall i hi) with hle | hlength
    · omega
    · rw [toNatClampNeg_mul_eq_zero hwrap hwrap'] at hlength
      exact hnil (List.eq_nil_of_length_eq_zero (Nat.le_zero.1 hlength))
  · rintro (rfl | hnil) i hi
    · rw [onPage_iff query hi hs]
      left
      have hlt := i.toInt_lt
      change i.toInt * 1 ≤ 2147483647
      omega
    · rw [onPage_iff query hi hs, hnil]
      exact .inr (Nat.zero_le _)

variable {k : Nat}

/-- The pages up to the end of the list, as long as their bounds are in the range of an `int`:
together they are the list, no two of them have a position in common, and the next one is empty. -/
theorem pages_partition (query : Queryable V) (hs : 0 < s)
    (hend : query.elements.length ≤ k * s.toNatClampNeg)
    (hk : k * s.toNatClampNeg ≤ 2147483647) :
    (List.range k).flatMap (fun i => (query.getPageElements (.ofNat i) s).elements) =
        query.elements ∧
      (query.getPageElements (.ofNat k) s).elements = [] ∧
      ∀ i j, i < j → j ≤ k → (query.indexed.getPageElements (.ofNat i) s).elements.Disjoint
        (query.indexed.getPageElements (.ofNat j) s).elements := by
  have hs' := toNatClampNeg_pos hs
  have hpage : ∀ {W : Type} (q : Queryable W) (i : Nat), i ≤ k →
      (q.getPageElements (.ofNat i) s).elements = page q.elements s.toNatClampNeg i := by
    intro W q i hi
    have hle : i * s.toNatClampNeg ≤ 2147483647 := (Nat.mul_le_mul_right _ hi).trans hk
    have hlt : i < 2147483648 := Nat.lt_succ_of_le ((Nat.le_mul_of_pos_right i hs').trans hle)
    have htoInt : (Int32.ofNat i).toInt = i := Int32.toInt_ofNat_of_lt hlt
    have hpos : 0 ≤ Int32.ofNat i := by
      rw [Int32.le_iff_toInt_le, htoInt]
      exact Int.natCast_nonneg i
    have hmul : (Int32.ofNat i).toInt * s.toInt ≤ 2147483647 := by
      rw [htoInt, ← Int32.cast_toNatClampNeg s (Int32.le_of_lt hs), ← Int.natCast_mul]
      exact Int.ofNat_le.2 hle
    rw [elements_getPageElements, toNatClampNeg_mul hpos hs hmul,
      Int32.toNatClampNeg_ofNat_of_lt hlt, page]
  refine ⟨?_, ?_, ?_⟩
  · calc
      _ = (List.range k).flatMap (page query.elements s.toNatClampNeg) := by
        refine List.flatMap_congr ?_
        intro i hi
        exact hpage query i (List.mem_range.1 hi).le
      _ = query.elements.take (k * s.toNatClampNeg) := flatMap_page _ _ _
      _ = query.elements := List.take_of_length_le hend
  · rw [hpage query k (Nat.le_refl k)]
    exact (window_eq_nil_iff hs').2 hend
  · intro i j hij hj
    rw [hpage _ i (hij.le.trans hj), hpage _ j hj, Queryable.indexed, elements_unsorted]
    exact disjoint_page hij.ne

end Pages

section DoPageFind

variable {S : Runtime Ty Member Op V} {type : Ty} {dbSet result : Queryable V} {i s : Int32}
  {specification : Option (V → Bool)} {orderExpressions : Option (List (OrderExpression Member Op))}
  {total : Nat}

/-- `DoPageFind` gives a page of the sorted entities, and their number. -/
theorem doPageFind_eq_ok_iff :
    doPageFind S type dbSet i s specification orderExpressions = .ok (result, total) ↔
      0 ≤ i ∧ 0 < s ∧ orderExpressions.getD [] ≠ [] ∧ ∃ query,
        findAll S type dbSet (some (specification.getD fun _ => true))
            (orderExpressions.getD []) = some query ∧
          query.count = some total ∧ result = query.getPageElements i s := by
  constructor
  · intro h
    simp only [doPageFind] at h
    split at h
    · cases h
    · next hindex =>
      split at h
      · cases h
      · next hsize =>
        split at h
        · cases h
        · next horders =>
          split at h
          · cases h
          · next query hquery =>
            split at h
            · cases h
            · next count hcount =>
              cases h
              exact ⟨Int32.not_lt.1 hindex, Int32.not_le.1 hsize,
                fun hnil => horders (by rw [hnil]; rfl), query, hquery, hcount, rfl⟩
  · rintro ⟨hi, hs, horders, query, hquery, hcount, rfl⟩
    simp only [doPageFind, if_neg (Int32.not_lt.2 hi), if_neg (Int32.not_le.2 hs), hquery, hcount]
    rw [if_neg (by simpa using horders)]

/-- The page of any list is the one that was asked for exactly if the product does not wrap, or it
wraps to a number that is behind the end; and `DoPageFind` and `DoPageFindAsync` give that page of
the sorted entities. -/
theorem pageFind_iff (S : Runtime Ty Member Op V) (type : Ty) (dbSet : Queryable V)
    (specification : Option (V → Bool))
    (orderExpressions : Option (List (OrderExpression Member Op))) (hi : 0 ≤ i) (hs : 0 < s) :
    (∀ query : Queryable V, OnPage query i s ↔
      i.toInt * s.toInt ≤ 2147483647 ∨ query.elements.length ≤ (i * s).toNatClampNeg) ∧
    ∀ result total,
      doPageFind S type dbSet i s specification orderExpressions = .ok (result, total) ∨
        doPageFindAsync S type dbSet i s specification orderExpressions = .ok (result, total) →
      ∃ query, findAll S type dbSet (some (specification.getD fun _ => true))
          (orderExpressions.getD []) = some query ∧
        result.elements = (query.indexed.getPageElements i s).elements.map Prod.fst := by
  refine ⟨fun query => onPage_iff query hi hs, ?_⟩
  intro result total h
  have hpage := h.elim id id
  obtain ⟨-, -, -, query, hquery, -, rfl⟩ := doPageFind_eq_ok_iff.1 hpage
  exact ⟨query, hquery, elements_indexed_getPageElements query i s⟩

end DoPageFind

/-- The second page of one element. -/
theorem pageFind_iff_samplePersons :
    ∃ result query, doPageFind sampleRuntime .person samplePersons 1 1 none (some sampleOrder) =
        .ok (result, 2) ∧
      result.elements = (query.indexed.getPageElements 1 1).elements.map Prod.fst ∧
      OnPage query 1 1 := by
  obtain ⟨query, hquery⟩ := Option.isSome_iff_exists.1 (by decide :
    (findAll sampleRuntime .person samplePersons (some fun _ => true) sampleOrder).isSome)
  have hcount : query.count = some 2 := by
    rw [Queryable.count, elements_of_findAll hquery, (Comparer.sort_perm _ _).length_eq, satisfying,
      samplePersons, elements_unsorted]
    rfl
  have hresult : doPageFind sampleRuntime .person samplePersons 1 1 none (some sampleOrder) =
      .ok (query.getPageElements 1 1, 2) :=
    doPageFind_eq_ok_iff.2
      ⟨by decide, by decide, List.cons_ne_nil _ _, query, hquery, hcount, rfl⟩
  obtain ⟨hon, hpage⟩ := pageFind_iff sampleRuntime .person samplePersons none (some sampleOrder)
    (i := 1) (s := 1) (by decide) (by decide)
  obtain ⟨query', hquery', helements⟩ := hpage _ _ (.inl hresult)
  exact ⟨_, query', hresult, helements, (hon query').2 (.inl (by decide))⟩

/-- A page far behind the end of a list of three elements: its product wraps to a negative number,
and the first page comes again. -/
theorem not_onPage_wraps :
    ¬ OnPage (⟨[10, 20, 30], []⟩ : Queryable Int) 1073741824 2 ∧
      ((⟨[10, 20, 30], []⟩ : Queryable Int).getPageElements 1073741824 2).elements = [10, 20] := by
  have hpage : ((⟨[10, 20, 30], []⟩ : Queryable Int).getPageElements 1073741824 2).elements =
      [10, 20] := by
    rw [elements_getPageElements, elements_unsorted]
    decide
  refine ⟨?_, hpage⟩
  rw [OnPage]
  intro hon
  have hmap := elements_indexed_getPageElements (⟨[10, 20, 30], []⟩ : Queryable Int) 1073741824 2
  rw [hpage, hon, elements_unsorted] at hmap
  exact absurd hmap (by decide)

end IFramework.Repositories
