import IFramework.Infrastructure.ObjectId
import IFramework.Theory.Separator
import Mathlib.Data.List.Flatten

/-!
# Legacy cookie strings

A dictionary is written with a `=` between each key and its value and a `&` between the entries, and
nothing is escaped. Reading splits at both, and takes the first two parts of each entry. So what is
written is read back exactly if there is an entry, and neither separator is in a key or a value
(`legacyCookie_roundTrips_iff`).
-/

namespace IFramework.AspNet

open Separator
open IFramework.Infrastructure (Text unit text)

/-- A dictionary from strings to strings, in the order in which it enumerates its entries. -/
structure StringDictionary where
  entries : List (Text × Text)
  nodup : (entries.map Prod.fst).Nodup

inductive LegacyCookieException where
  | indexOutOfRangeException
  | argumentException
  deriving DecidableEq

namespace StringDictionary

def empty : StringDictionary := ⟨[], List.nodup_nil⟩

/-- `Add`, which throws when the key is there already. -/
def add (d : StringDictionary) (key value : Text) :
    Except LegacyCookieException StringDictionary :=
  if h : key ∈ d.entries.map Prod.fst then .error .argumentException
  else
    .ok ⟨d.entries ++ [(key, value)], by
      rw [List.map_append, List.nodup_append]
      refine ⟨d.nodup, List.nodup_singleton key, ?_⟩
      rintro other hmem _ hkey rfl
      obtain rfl : other = key := List.mem_singleton.1 hkey
      exact h hmem⟩

/-- `ToDictionary` with `kvp[0]` as key and `kvp[1]` as value: one entry. -/
def addParts (d : StringDictionary) (kvp : List Text) :
    Except LegacyCookieException StringDictionary :=
  match kvp with
  | key :: value :: _ => d.add key value
  | [_] | [] => .error .indexOutOfRangeException

end StringDictionary

/-- `ToLegacyCookieString`. -/
def toLegacyCookieString (d : StringDictionary) : Text :=
  [unit '&'].intercalate (d.entries.map fun kvp => [unit '='].intercalate [kvp.1, kvp.2])

/-- `FromLegacyCookieString`. -/
def fromLegacyCookieString (legacyCookie : Text) :
    Except LegacyCookieException StringDictionary :=
  (((legacyCookie.splitOn (unit '&')).map (·.splitOn (unit '='))).foldlM
    StringDictionary.addParts .empty)

/-- What is written is read back, with the same entries. -/
def RoundTrips (d : StringDictionary) : Prop :=
  ∃ d', fromLegacyCookieString (toLegacyCookieString d) = .ok d' ∧ d'.entries.Perm d.entries

/-- Neither separator is in the key or in the value. -/
def Unambiguous (kvp : Text × Text) : Prop :=
  (unit '=' ∉ kvp.1 ∧ unit '=' ∉ kvp.2) ∧ unit '&' ∉ kvp.1 ∧ unit '&' ∉ kvp.2

/-! ## Reading -/

variable {d d' : StringDictionary} {kvps : List (List Text)}

/-- `kvp[0]` and `kvp[1]`. -/
def firstTwo (kvp : List Text) : Text × Text := (kvp.headD [], kvp.tail.headD [])

theorem addParts_eq_ok {kvp : List Text} (h : d.addParts kvp = .ok d') :
    2 ≤ kvp.length ∧ d'.entries = d.entries ++ [firstTwo kvp] := by
  match kvp with
  | [] => cases h
  | [_] => cases h
  | key :: value :: rest =>
    simp only [StringDictionary.addParts, StringDictionary.add] at h
    split at h
    · cases h
    · cases h
      exact ⟨by simp, rfl⟩

theorem foldlM_addParts_eq_ok (h : kvps.foldlM StringDictionary.addParts d = .ok d') :
    (∀ kvp ∈ kvps, 2 ≤ kvp.length) ∧ d'.entries = d.entries ++ kvps.map firstTwo := by
  induction kvps generalizing d with
  | nil =>
    cases h
    simp
  | cons kvp kvps ih =>
    rw [List.foldlM_cons] at h
    cases hadd : d.addParts kvp with
    | error e =>
      rw [hadd] at h
      cases h
    | ok d₁ =>
      rw [hadd] at h
      obtain ⟨hlength, hentries⟩ := addParts_eq_ok hadd
      obtain ⟨hlengths, hentries'⟩ := ih h
      refine ⟨List.forall_mem_cons.2 ⟨hlength, hlengths⟩, ?_⟩
      rw [hentries', hentries, List.append_assoc]
      rfl

/-- Pairs with different keys are all added. -/
theorem foldlM_addParts_pairs {pairs : List (Text × Text)}
    (h : ((d.entries ++ pairs).map Prod.fst).Nodup) :
    ∃ d', (pairs.map fun kvp => [kvp.1, kvp.2]).foldlM StringDictionary.addParts d = .ok d' ∧
      d'.entries = d.entries ++ pairs := by
  induction pairs generalizing d with
  | nil => exact ⟨d, rfl, (List.append_nil _).symm⟩
  | cons kvp pairs ih =>
    have hnew : kvp.1 ∉ d.entries.map Prod.fst := by
      intro hmem
      rw [List.map_append, List.map_cons] at h
      exact (List.nodup_append.1 h).2.2 _ hmem _ List.mem_cons_self rfl
    obtain ⟨d₁, hadd, hentries⟩ : ∃ d₁, d.add kvp.1 kvp.2 = .ok d₁ ∧
        d₁.entries = d.entries ++ [kvp] := ⟨_, dif_neg hnew, rfl⟩
    obtain ⟨d', hrest, hentries'⟩ := ih (d := d₁) (by
      rw [hentries, List.append_assoc]
      exact h)
    refine ⟨d', ?_, ?_⟩
    · rw [List.map_cons, List.foldlM_cons]
      simp only [StringDictionary.addParts, hadd]
      exact hrest
    · rw [hentries', hentries, List.append_assoc]
      rfl

/-! ## Reading what was written -/

/-- The text of an entry. -/
def pairText (kvp : Text × Text) : Text := [unit '='].intercalate [kvp.1, kvp.2]

/-- An entry gives two parts and one more for each `=` in its key and its value. What is in these is
missing in the first two, and so is a `=` for each of them. -/
theorem splitOn_pairText (kvp : Text × Text) :
    ∃ rest, (kvp.1 ++ kvp.2).length =
        ((firstTwo ((pairText kvp).splitOn (unit '='))).1 ++
          (firstTwo ((pairText kvp).splitOn (unit '='))).2).length + rest ∧
      (kvp.1 ++ kvp.2).count (unit '=') ≤ rest := by
  have hflatten : [kvp.1, kvp.2].flatten = kvp.1 ++ kvp.2 := by simp
  have hcount : (pairText kvp).count (unit '=') + 1 = (kvp.1 ++ kvp.2).count (unit '=') + 2 :=
    hflatten ▸ count_intercalate (List.cons_ne_nil kvp.1 [kvp.2])
  have hlength : (pairText kvp).length + 1 = (kvp.1 ++ kvp.2).length + 2 :=
    hflatten ▸ length_intercalate (List.cons_ne_nil kvp.1 [kvp.2])
  have hparts := length_splitOn (unit '=') (pairText kvp)
  have htotal : (pairText kvp).length + 1 =
      ((pairText kvp).splitOn (unit '=')).flatten.length +
        ((pairText kvp).splitOn (unit '=')).length := by
    rw [← length_intercalate (List.splitOn_ne_nil (unit '=') (pairText kvp)),
      List.intercalate_splitOn]
  match h : (pairText kvp).splitOn (unit '=') with
  | [] => exact absurd h (List.splitOn_ne_nil _ _)
  | [part] =>
    rw [h, List.length_singleton] at hparts
    omega
  | key :: value :: rest =>
    rw [h] at hparts htotal
    refine ⟨rest.flatten.length + rest.length, ?_, ?_⟩
    · simp only [List.flatten_cons, List.length_append, List.length_cons, firstTwo,
        List.headD_cons, List.tail_cons] at htotal hlength ⊢
      omega
    · simp only [List.length_cons] at hparts
      omega

theorem mem_pairText {c : UInt16} {kvp : Text × Text} :
    c ∈ pairText kvp ↔ c ∈ kvp.1 ∨ c = unit '=' ∨ c ∈ kvp.2 := by
  rw [pairText, List.intercalate_cons_cons, List.intercalate_singleton]
  simp

/-- Where no list is longer than its counterpart and the total is the same, all are as long. -/
theorem length_eq_of_length_flatMap_eq {α : Type} {l : List α} {f g : α → Text}
    (hle : ∀ x ∈ l, (f x).length ≤ (g x).length)
    (heq : (l.flatMap f).length = (l.flatMap g).length) :
    ∀ x ∈ l, (f x).length = (g x).length := by
  induction l with
  | nil => simp
  | cons x l ih =>
    obtain ⟨hx, hl⟩ := List.forall_mem_cons.1 hle
    have hrest : ∀ l : List α, (∀ x ∈ l, (f x).length ≤ (g x).length) →
        (l.flatMap f).length ≤ (l.flatMap g).length := by
      intro l hl
      induction l with
      | nil => exact Nat.le_refl 0
      | cons x l ih =>
        obtain ⟨hx, hl⟩ := List.forall_mem_cons.1 hl
        have hlength := ih hl
        simp only [List.flatMap_cons, List.length_append]
        omega
    have hlength := hrest l hl
    simp only [List.flatMap_cons, List.length_append] at heq
    exact List.forall_mem_cons.2 ⟨by omega, ih hl (by omega)⟩

/-- What an entry is read back as. -/
def readBack (kvp : Text × Text) : Text × Text := firstTwo ((pairText kvp).splitOn (unit '='))

theorem not_mem_of_readBack
    (h : (d.entries.map readBack).Perm d.entries) :
    ∀ kvp ∈ d.entries, unit '=' ∉ kvp.1 ∧ unit '=' ∉ kvp.2 := by
  have htotal : (d.entries.flatMap fun kvp => (readBack kvp).1 ++ (readBack kvp).2).length =
      (d.entries.flatMap fun kvp => kvp.1 ++ kvp.2).length := by
    rw [← (h.flatMap_right fun kvp => kvp.1 ++ kvp.2).length_eq, List.flatMap_map]
  have hlengths := length_eq_of_length_flatMap_eq (fun kvp _ => by
    obtain ⟨rest, hrest, -⟩ := splitOn_pairText kvp
    rw [hrest]
    exact Nat.le_add_right _ rest) htotal
  intro kvp hkvp
  obtain ⟨rest, hrest, hcount⟩ := splitOn_pairText kvp
  have hlength := hlengths kvp hkvp
  rw [readBack] at hlength
  have hzero : (kvp.1 ++ kvp.2).count (unit '=') = 0 := by omega
  rw [List.count_eq_zero, List.mem_append, not_or] at hzero
  exact hzero

theorem unambiguous_of_roundTrips (h : RoundTrips d) :
    d.entries ≠ [] ∧ ∀ kvp ∈ d.entries, Unambiguous kvp := by
  obtain ⟨d', hread, hperm⟩ := h
  obtain ⟨hlengths, hentries⟩ := foldlM_addParts_eq_ok hread
  have hne : d.entries ≠ [] := by
    intro hnil
    have hempty : toLegacyCookieString d = [] := by
      rw [toLegacyCookieString, hnil]
      rfl
    rw [hempty, List.splitOn_nil] at hlengths
    exact absurd (hlengths [[]] (by simp)) (by decide)
  have hparts : d.entries.map pairText ≠ [] := mt List.map_eq_nil_iff.1 hne
  have hamp : ∀ kvp ∈ d.entries, unit '&' ∉ pairText kvp := by
    have hlength := hperm.length_eq
    rw [hentries] at hlength
    simp only [StringDictionary.empty, List.nil_append, List.length_map] at hlength
    have hnot := not_mem_of_length_splitOn hparts (hlength.trans (List.length_map _).symm)
    exact fun kvp hkvp => hnot _ (List.mem_map_of_mem hkvp)
  have hsplit : (toLegacyCookieString d).splitOn (unit '&') = d.entries.map pairText :=
    List.splitOn_intercalate _ (List.forall_mem_map.2 hamp) hparts
  have hread' : d'.entries = d.entries.map readBack := by
    rw [hentries, hsplit, List.map_map, List.map_map]
    rfl
  rw [hread'] at hperm
  refine ⟨hne, ?_⟩
  intro kvp hkvp
  have hkvp' := hamp kvp hkvp
  rw [mem_pairText, not_or, not_or] at hkvp'
  exact ⟨not_mem_of_readBack hperm kvp hkvp, hkvp'.1, hkvp'.2.2⟩

theorem roundTrips_of_unambiguous (hne : d.entries ≠ [])
    (h : ∀ kvp ∈ d.entries, Unambiguous kvp) : RoundTrips d := by
  have hsplit : (toLegacyCookieString d).splitOn (unit '&') = d.entries.map pairText := by
    refine List.splitOn_intercalate _ (List.forall_mem_map.2 ?_) (mt List.map_eq_nil_iff.1 hne)
    intro kvp hkvp
    obtain ⟨-, hkey, hvalue⟩ := h kvp hkvp
    change unit '&' ∉ pairText kvp
    rw [mem_pairText]
    rintro (hmem | heq | hmem)
    · exact hkey hmem
    · exact absurd heq (by decide)
    · exact hvalue hmem
  have hpairs : ((toLegacyCookieString d).splitOn (unit '&')).map (·.splitOn (unit '=')) =
      d.entries.map fun kvp => [kvp.1, kvp.2] := by
    rw [hsplit, List.map_map]
    refine List.map_congr_left ?_
    intro kvp hkvp
    obtain ⟨⟨hkey, hvalue⟩, -⟩ := h kvp hkvp
    exact List.splitOn_intercalate _ (by simp [hkey, hvalue]) (List.cons_ne_nil _ _)
  have hnodup : ((StringDictionary.empty.entries ++ d.entries).map Prod.fst).Nodup := d.nodup
  obtain ⟨d', hread, hentries⟩ := foldlM_addParts_pairs hnodup
  refine ⟨d', ?_, .of_eq hentries⟩
  rw [fromLegacyCookieString, hpairs, hread]

/-- What is written is read back exactly if the dictionary is not empty and neither separator is in
a key or a value. -/
theorem legacyCookie_roundTrips_iff (d : StringDictionary) :
    RoundTrips d ↔ d.entries ≠ [] ∧ ∀ kvp ∈ d.entries, Unambiguous kvp :=
  ⟨unambiguous_of_roundTrips, fun ⟨hne, h⟩ => roundTrips_of_unambiguous hne h⟩

/-- The empty dictionary is written as the empty string, on which reading throws, and what is behind
a `=` in a value is lost. -/
theorem not_roundTrips :
    ¬ RoundTrips .empty ∧ ¬ RoundTrips ⟨[(text "a", text "b=c")], by decide⟩ := by
  constructor
  · rintro ⟨d', hread, -⟩
    have hthrows : fromLegacyCookieString (toLegacyCookieString .empty) =
        .error .indexOutOfRangeException := rfl
    rw [hthrows] at hread
    cases hread
  · rintro ⟨d', hread, hperm⟩
    have hlost := (foldlM_addParts_eq_ok hread).2
    rw [hlost] at hperm
    exact absurd hperm (by decide)

end IFramework.AspNet
