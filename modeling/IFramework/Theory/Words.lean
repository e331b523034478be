import Mathlib.Data.List.Basic

/-!
# Words that commute

Two lists give the same list in either order exactly when both are repetitions of one list.
-/

namespace Words

variable {α : Type*}

/-- A list repeated a number of times. -/
def power (w : List α) : Nat → List α
  | 0 => []
  | n + 1 => w ++ power w n

@[simp] theorem power_zero (w : List α) : power w 0 = [] := rfl

@[simp] theorem power_one (w : List α) : power w 1 = w := by simp [power]

theorem power_add (w : List α) (m n : Nat) : power w (m + n) = power w m ++ power w n := by
  induction m with
  | zero => simp
  | succ m ih => rw [Nat.succ_add, power, power, ih, List.append_assoc]

theorem power_append_comm (w : List α) (m n : Nat) :
    power w m ++ power w n = power w n ++ power w m := by
  rw [← power_add, ← power_add, Nat.add_comm]

/-- The shorter one of two words that commute is a front part of the longer one, and commutes with
the rest of it. -/
theorem split_of_append_comm {u v : List α} (h : u ++ v = v ++ u) (hlen : u.length ≤ v.length) :
    ∃ v', v = u ++ v' ∧ u ++ v' = v' ++ u := by
  have hpre : u <+: v :=
    List.prefix_of_prefix_length_le (List.prefix_append u v) (h ▸ List.prefix_append v u) hlen
  obtain ⟨v', rfl⟩ := hpre
  rw [List.append_assoc, List.append_cancel_left_eq] at h
  exact ⟨v', rfl, h⟩

theorem exists_power_of_append_comm {u v : List α} (h : u ++ v = v ++ u) :
    ∃ w m n, u = power w m ∧ v = power w n := by
  by_cases hu : u = []
  · exact ⟨v, 0, 1, by simp [hu]⟩
  by_cases hv : v = []
  · exact ⟨u, 1, 0, by simp [hv]⟩
  have hu' := List.length_pos_iff.2 hu
  have hv' := List.length_pos_iff.2 hv
  rcases Nat.le_total u.length v.length with hlen | hlen
  · obtain ⟨v', hsplit, hcomm⟩ := split_of_append_comm h hlen
    have hshort : v.length = u.length + v'.length := by rw [hsplit, List.length_append]
    obtain ⟨w, m, n, hum, hvn⟩ := exists_power_of_append_comm hcomm
    exact ⟨w, m, m + n, hum, by rw [hsplit, power_add, ← hum, ← hvn]⟩
  · obtain ⟨u', hsplit, hcomm⟩ := split_of_append_comm h.symm hlen
    have hshort : u.length = v.length + u'.length := by rw [hsplit, List.length_append]
    obtain ⟨w, m, n, hvm, hun⟩ := exists_power_of_append_comm hcomm
    exact ⟨w, m + n, m, by rw [hsplit, power_add, ← hvm, ← hun], hvm⟩
termination_by u.length + v.length

/-- Two lists commute exactly when both are repetitions of one list. -/
theorem append_comm_iff {u v : List α} :
    u ++ v = v ++ u ↔ ∃ w m n, u = power w m ∧ v = power w n := by
  constructor
  · exact exists_power_of_append_comm
  · rintro ⟨w, m, n, rfl, rfl⟩
    exact power_append_comm w m n

end Words
