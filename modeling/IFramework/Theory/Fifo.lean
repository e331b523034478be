import Mathlib.Data.List.Nodup
import Mathlib.Logic.Function.Basic

/-!
# Logs of keyed first-in first-out queues

Any number of queues, one for each key, and two logs of the operations on them: what was put into
which queue, and what was taken out of which queue. `Fifo enq deq queue` says that each queue holds
what was put into it and not yet taken out, in order. When no element is put in twice, no element
is taken out twice (`Fifo.nodup_dequeue`), and what a queue still holds was never taken out
(`Fifo.not_mem_deq`).
-/

namespace Fifo

variable {κ α : Type*} [DecidableEq κ]

/-- The part of a log that concerns one key. -/
def sublog (k : κ) (l : List (κ × α)) : List α := (l.filter fun p => p.1 = k).map Prod.snd

@[simp] theorem sublog_nil (k : κ) : sublog k ([] : List (κ × α)) = [] := rfl

@[simp] theorem sublog_append (k : κ) (l l' : List (κ × α)) :
    sublog k (l ++ l') = sublog k l ++ sublog k l' := by
  simp [sublog]

@[simp] theorem sublog_singleton_self (k : κ) (x : α) : sublog k [(k, x)] = [x] := by
  simp [sublog]

theorem sublog_singleton_of_ne {k k' : κ} (h : k' ≠ k) (x : α) : sublog k [(k', x)] = [] := by
  simp [sublog, h]

@[simp] theorem mem_sublog {k : κ} {x : α} {l : List (κ × α)} : x ∈ sublog k l ↔ (k, x) ∈ l := by
  simp [sublog]

omit [DecidableEq κ] in
/-- An element of the log is logged under one key only. -/
theorem key_unique {l : List (κ × α)} (hl : (l.map Prod.snd).Nodup) {k k' : κ} {x : α}
    (h : (k, x) ∈ l) (h' : (k', x) ∈ l) : k = k' := by
  have hpair := List.inj_on_of_nodup_map hl h h' rfl
  exact congrArg Prod.fst hpair

theorem nodup_sublog {l : List (κ × α)} (hl : (l.map Prod.snd).Nodup) (k : κ) :
    (sublog k l).Nodup :=
  hl.sublist (List.filter_sublist.map Prod.snd)

end Fifo

open Fifo in
/-- Each queue holds what was put into it and not yet taken out, in order. -/
def Fifo {κ α : Type*} [DecidableEq κ] (enq deq : List (κ × α)) (queue : κ → List α) : Prop :=
  ∀ k, sublog k enq = sublog k deq ++ queue k

namespace Fifo

variable {κ α : Type*} [DecidableEq κ] {enq deq : List (κ × α)} {queue : κ → List α}

theorem enqueue (h : Fifo enq deq queue) (k : κ) (x : α) :
    Fifo (enq ++ [(k, x)]) deq (Function.update queue k (queue k ++ [x])) := by
  intro k'
  by_cases hk : k = k'
  · subst hk
    simp [h k]
  · have hk' : k' ≠ k := fun e => hk e.symm
    simp [sublog_singleton_of_ne hk, h k', hk']

theorem dequeue (h : Fifo enq deq queue) {k : κ} {x : α} {rest : List α}
    (hq : queue k = x :: rest) : Fifo enq (deq ++ [(k, x)]) (Function.update queue k rest) := by
  intro k'
  by_cases hk : k = k'
  · subst hk
    simp [h k, hq]
  · have hk' : k' ≠ k := fun e => hk e.symm
    simp [sublog_singleton_of_ne hk, h k', hk']

theorem mem_enq_of_mem_deq (h : Fifo enq deq queue) {k : κ} {x : α} (hx : (k, x) ∈ deq) :
    (k, x) ∈ enq := by
  rw [← mem_sublog, h k]
  exact List.mem_append_left _ (mem_sublog.2 hx)

theorem mem_enq_of_mem_queue (h : Fifo enq deq queue) {k : κ} {x : α} (hx : x ∈ queue k) :
    (k, x) ∈ enq := by
  rw [← mem_sublog, h k]
  exact List.mem_append_right _ hx

/-- What a queue still holds was never taken out of any queue. -/
theorem not_mem_deq (h : Fifo enq deq queue) (hn : (enq.map Prod.snd).Nodup) {k k' : κ} {x : α}
    (hx : x ∈ queue k) : (k', x) ∉ deq := by
  intro hd
  have hkk : k' = k := key_unique hn (h.mem_enq_of_mem_deq hd) (h.mem_enq_of_mem_queue hx)
  subst hkk
  have hnodup : (sublog k' deq ++ queue k').Nodup := h k' ▸ nodup_sublog hn k'
  exact (List.nodup_append.1 hnodup).2.2 x (mem_sublog.2 hd) x hx rfl

/-- What was put in is still in its queue or was taken out. -/
theorem mem_queue_or_deq (h : Fifo enq deq queue) {k : κ} {x : α} (hx : (k, x) ∈ enq) :
    (k, x) ∈ deq ∨ x ∈ queue k := by
  have hmem : x ∈ sublog k deq ++ queue k := h k ▸ mem_sublog.2 hx
  rcases List.mem_append.1 hmem with hd | hq
  · exact .inl (mem_sublog.1 hd)
  · exact .inr hq

/-- An element that is put in once is not taken out a second time. -/
theorem nodup_dequeue (h : Fifo enq deq queue) (hn : (enq.map Prod.snd).Nodup)
    (hd : (deq.map Prod.snd).Nodup) {k : κ} {x : α} (hx : x ∈ queue k) :
    ((deq ++ [(k, x)]).map Prod.snd).Nodup := by
  have hnew : x ∉ deq.map Prod.snd := by
    intro hmem
    obtain ⟨⟨k', y⟩, hy, rfl⟩ := List.mem_map.1 hmem
    exact h.not_mem_deq hn hx hy
  rw [List.map_append, List.nodup_append]
  refine ⟨hd, by simp, ?_⟩
  rintro y hy z hz rfl
  have hyx : y = x := by simpa using hz
  exact hnew (hyx ▸ hy)

end Fifo
