import Mathlib.Data.List.Basic

/-!
# Lists with separators

`behind sep xs` drops a list up to its first separator and keeps a list without separator. Split at
the separators, it has all parts but the first, unless that is the only one (`splitOn_behind`).

Parts that were joined with a separator and are split again come back one more for each separator
that was in them (`count_intercalate`).
-/

namespace Separator

variable {α : Type*} [DecidableEq α] {sep x : α} {xs ys : List α}

/-- The elements behind the first separator, or all of them. -/
def behind (sep : α) (xs : List α) : List α := xs.drop ((xs.idxOf? sep).elim 0 (· + 1))

/-- The parts but the first one, if there are others. -/
def dropFirst {β : Type*} : List β → List β
  | [part] => [part]
  | parts => parts.tail

theorem behind_of_not_mem (h : sep ∉ xs) : behind sep xs = xs := by
  have hidx : xs.idxOf? sep = none := List.idxOf?_eq_none_iff.2 h
  rw [behind, hidx]
  rfl

theorem idxOf?_append_cons (h : sep ∉ xs) : (xs ++ sep :: ys).idxOf? sep = some xs.length := by
  induction xs with
  | nil => simp [List.idxOf?_cons]
  | cons x xs ih =>
    have hx : sep ≠ x := List.ne_of_not_mem_cons h
    have hxs : sep ∉ xs := List.not_mem_of_not_mem_cons h
    simp [List.idxOf?_cons, ih hxs, Ne.symm hx]

theorem behind_append_cons (h : sep ∉ xs) : behind sep (xs ++ sep :: ys) = ys := by
  rw [behind, idxOf?_append_cons h]
  simp

theorem behind_append (h : sep ∈ xs) : behind sep (xs ++ ys) = behind sep xs ++ ys := by
  obtain ⟨front, back, rfl, hfront⟩ := List.eq_append_cons_of_mem h
  rw [List.append_assoc, List.cons_append, behind_append_cons hfront, behind_append_cons hfront]

theorem behind_append_of_not_mem (hxs : sep ∉ xs) (hys : sep ∈ ys) :
    behind sep (xs ++ ys) = behind sep ys := by
  obtain ⟨front, back, rfl, hfront⟩ := List.eq_append_cons_of_mem hys
  have hmem : sep ∉ xs ++ front := by simp [hxs, hfront]
  rw [← List.append_assoc, behind_append_cons hmem, behind_append_cons hfront]

theorem mem_behind_concat (h : x ≠ sep) : x ∈ behind sep (xs ++ [x]) := by
  by_cases hxs : sep ∈ xs
  · simp [behind_append hxs]
  · have hmem : sep ∉ xs ++ [x] := by simp [hxs, Ne.symm h]
    simp [behind_of_not_mem hmem]

omit [DecidableEq α] in
theorem mem_of_mem_intercalate {parts : List (List α)} (h : x ∈ [sep].intercalate parts) :
    x = sep ∨ ∃ part ∈ parts, x ∈ part := by
  induction parts with
  | nil => simp at h
  | cons part parts ih =>
    cases parts with
    | nil => exact .inr ⟨part, List.mem_singleton_self _, by simpa using h⟩
    | cons part' parts =>
      rw [List.intercalate_cons_cons, List.append_assoc, List.mem_append, List.mem_append,
        List.mem_singleton] at h
      rcases h with hpart | hsep | hrest
      · exact .inr ⟨part, List.mem_cons_self, hpart⟩
      · exact .inl hsep
      · refine (ih hrest).imp_right ?_
        rintro ⟨p, hp, hx⟩
        exact ⟨p, List.mem_cons_of_mem _ hp, hx⟩

theorem exists_mem_splitOn (hx : x ∈ xs) (hsep : x ≠ sep) : ∃ part ∈ xs.splitOn sep, x ∈ part := by
  have hxs : [sep].intercalate (xs.splitOn sep) = xs := List.intercalate_splitOn sep
  rw [← hxs] at hx
  exact (mem_of_mem_intercalate hx).resolve_left hsep

/-- Behind the first separator are the parts but the first. -/
theorem splitOn_behind (sep : α) (xs : List α) :
    (behind sep xs).splitOn sep = dropFirst (xs.splitOn sep) := by
  by_cases h : sep ∈ xs
  · obtain ⟨front, back, rfl, hfront⟩ := List.eq_append_cons_of_mem h
    rw [behind_append_cons hfront, List.splitOn_append_cons_self_of_not_mem hfront]
    cases hback : back.splitOn sep with
    | nil => exact absurd hback (List.splitOn_ne_nil sep back)
    | cons part parts => rfl
  · rw [behind_of_not_mem h, List.splitOn_eq_singleton h]
    rfl

/-! ## Splitting what was joined -/

theorem not_mem_of_mem_splitOn {part : List α} (h : part ∈ xs.splitOn sep) : sep ∉ part := by
  induction xs generalizing part with
  | nil =>
    rw [List.splitOn_nil, List.mem_singleton] at h
    simp [h]
  | cons x xs ih =>
    rw [List.splitOn_cons_eq_if_modifyHead] at h
    split at h
    · rcases List.mem_cons.1 h with rfl | h
      · simp
      · exact ih h
    · next hx =>
      cases hparts : xs.splitOn sep with
      | nil => exact absurd hparts (List.splitOn_ne_nil sep xs)
      | cons first rest =>
        rw [hparts] at ih
        rw [hparts, List.modifyHead_cons] at h
        rcases List.mem_cons.1 h with rfl | h
        · have hsep : sep ≠ x := fun heq => hx (by simp [heq])
          exact List.not_mem_cons_of_ne_of_not_mem hsep (ih List.mem_cons_self)
        · exact ih (List.mem_cons_of_mem first h)

theorem length_splitOn (sep : α) (xs : List α) :
    (xs.splitOn sep).length = xs.count sep + 1 := by
  induction xs with
  | nil => simp
  | cons x xs ih =>
    rw [List.splitOn_cons_eq_if_modifyHead, List.count_cons]
    split
    · rw [List.length_cons, ih]
    · rw [List.length_modifyHead, ih]

theorem count_intercalate {parts : List (List α)} (h : parts ≠ []) :
    ([sep].intercalate parts).count sep + 1 = parts.flatten.count sep + parts.length := by
  induction parts with
  | nil => exact absurd rfl h
  | cons part parts ih =>
    cases parts with
    | nil => simp
    | cons part' parts =>
      rw [List.intercalate_cons_cons, List.count_append, List.count_append, List.flatten_cons,
        List.count_append, List.length_cons, ← Nat.add_assoc]
      have hrest := ih (List.cons_ne_nil part' parts)
      have hsep : [sep].count sep = 1 := by simp
      omega

omit [DecidableEq α] in
theorem length_intercalate {parts : List (List α)} (h : parts ≠ []) :
    ([sep].intercalate parts).length + 1 = parts.flatten.length + parts.length := by
  induction parts with
  | nil => exact absurd rfl h
  | cons part parts ih =>
    cases parts with
    | nil => simp
    | cons part' parts =>
      rw [List.intercalate_cons_cons, List.length_append, List.length_append, List.flatten_cons,
        List.length_append]
      have hrest := ih (List.cons_ne_nil part' parts)
      have hsep : [sep].length = 1 := rfl
      have hparts : (part :: part' :: parts).length = (part' :: parts).length + 1 := rfl
      omega

/-- As many parts come back as were joined only if no part has a separator in it. -/
theorem not_mem_of_length_splitOn {parts : List (List α)} (h : parts ≠ [])
    (hlength : (([sep].intercalate parts).splitOn sep).length = parts.length) :
    ∀ part ∈ parts, sep ∉ part := by
  have hcount : ([sep].intercalate parts).count sep + 1 =
      parts.flatten.count sep + parts.length := count_intercalate h
  rw [length_splitOn] at hlength
  have hzero : parts.flatten.count sep = 0 := by omega
  intro part hpart hmem
  exact List.count_eq_zero.1 hzero (List.mem_flatten.2 ⟨part, hpart, hmem⟩)

end Separator
