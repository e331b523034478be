import IFramework.Infrastructure.ObjectId
import IFramework.Theory.Run
import Mathlib.Data.List.Nodup

/-!
# Generating object ids

Every call of `GenerateNewId` counts a static field up, in one atomic step, and makes an id from the
three low bytes of what it got. The threads take these two steps in any order, and each call has a
timestamp of its own. The counter wraps at 32 bits, which is a multiple of what three bytes hold, so
`2 ^ 24` calls in a row get different bytes wherever the counter stands at the first of them.
-/

namespace IFramework.Infrastructure

open Int32Bytes

/-- A call of `GenerateNewId`, with what it has taken from the counter and what it returns. -/
structure GenerateCall where
  timestamp : Int32
  increment : Int32
  result : Option (Except ObjectIdException ObjectId)

/-- The static fields, and the calls in the order in which they have counted up. -/
structure ObjectIdClass where
  staticMachine : Int32
  staticPid : Int16
  staticIncrement : Int32
  calls : List GenerateCall

namespace ObjectIdClass

/-- The machine is made of the first three bytes of a hash. -/
def getMachineHash (hash₀ hash₁ hash₂ : UInt8) : Int32 :=
  (ofByte hash₀ <<< 16) + (ofByte hash₁ <<< 8) + ofByte hash₂

/-- Before the first call of the window. -/
def start (hash₀ hash₁ hash₂ : UInt8) (staticPid : Int16) (staticIncrement : Int32) :
    ObjectIdClass where
  staticMachine := getMachineHash hash₀ hash₁ hash₂
  staticPid := staticPid
  staticIncrement := staticIncrement
  calls := []

/-- The two steps of a call: `Interlocked.Increment`, with the low three bytes of what it returns,
and the constructor. -/
inductive Action where
  | increment (timestamp : Int32)
  | construct (call : Nat)

def step (s : ObjectIdClass) : Action → Option ObjectIdClass
  | .increment timestamp =>
    let value := s.staticIncrement + 1
    some { s with
      staticIncrement := value
      calls := s.calls ++ [⟨timestamp, value &&& 0x00ffffff, none⟩] }
  | .construct i =>
    match s.calls[i]? with
    | some ⟨timestamp, increment, none⟩ =>
      let result := ObjectId.new timestamp s.staticMachine s.staticPid increment
      some { s with calls := s.calls.set i ⟨timestamp, increment, some result⟩ }
    | _ => none

/-- The ids that were returned. -/
def generated (s : ObjectIdClass) : List ObjectId :=
  s.calls.filterMap fun call => call.result.bind Except.toOption

/-- What each call has taken from the counter, and what it returns. -/
structure Counted (hash₀ hash₁ hash₂ : UInt8) (initial : Int32) (s : ObjectIdClass) : Prop where
  machine : s.staticMachine = getMachineHash hash₀ hash₁ hash₂
  counter : unsigned s.staticIncrement = (unsigned initial + s.calls.length) % 2 ^ 32
  increments : s.calls.map (fun call => unsigned call.increment) =
    (List.range s.calls.length).map fun i => (unsigned initial + (i + 1)) % 2 ^ 24
  fits : ∀ call ∈ s.calls, FitsIn3Bytes call.increment
  results : ∀ call ∈ s.calls, ∀ result, call.result = some result →
    result = ObjectId.new call.timestamp s.staticMachine s.staticPid call.increment

variable {hash₀ hash₁ hash₂ : UInt8} {initial : Int32} {s s' : ObjectIdClass}

theorem counted_start (staticPid : Int16) :
    Counted hash₀ hash₁ hash₂ initial (start hash₀ hash₁ hash₂ staticPid initial) where
  machine := rfl
  counter := (Nat.mod_eq_of_lt (unsigned_lt initial)).symm
  increments := rfl
  fits := by simp [start]
  results := by simp [start]

theorem Counted.increment (h : Counted hash₀ hash₁ hash₂ initial s) {timestamp : Int32}
    (hstep : s.step (.increment timestamp) = some s') : Counted hash₀ hash₁ hash₂ initial s' := by
  have hnext : unsigned (s.staticIncrement + 1) =
      (unsigned initial + (s.calls.length + 1)) % 2 ^ 32 := by
    have hadd : unsigned (s.staticIncrement + 1) = (unsigned s.staticIncrement + 1) % 2 ^ 32 :=
      unsigned_add _ _
    rw [hadd, h.counter]
    omega
  cases hstep
  refine ⟨h.machine, ?_, ?_, ?_, ?_⟩
  · rw [List.length_append]
    exact hnext
  · simp only [List.map_append, h.increments, List.length_append, List.length_singleton,
      List.range_succ, List.map_singleton, unsigned_and, hnext]
    congr 2
    omega
  · intro call hcall
    rcases List.mem_append.1 hcall with hcall | hcall
    · exact h.fits call hcall
    · cases List.mem_singleton.1 hcall
      exact fitsIn3Bytes_and _
  · intro call hcall result hresult
    rcases List.mem_append.1 hcall with hcall | hcall
    · exact h.results call hcall result hresult
    · cases List.mem_singleton.1 hcall
      cases hresult

theorem Counted.construct (h : Counted hash₀ hash₁ hash₂ initial s) {i : Nat}
    (hstep : s.step (.construct i) = some s') : Counted hash₀ hash₁ hash₂ initial s' := by
  rw [step] at hstep
  split at hstep
  next timestamp increment hcall =>
    cases hstep
    refine ⟨h.machine, ?_, ?_, ?_, ?_⟩
    · rw [List.length_set]
      exact h.counter
    · have hsame : (s.calls.map fun call => unsigned call.increment)[i]? =
          some (unsigned increment) := by
        rw [List.getElem?_map, hcall]
        rfl
      rw [List.length_set, List.map_set, ← h.increments]
      obtain ⟨_, hsame⟩ := List.getElem?_eq_some_iff.1 hsame
      rw [← hsame, List.set_getElem_self]
    · intro call hmem
      rcases List.mem_or_eq_of_mem_set hmem with hmem | rfl
      · exact h.fits call hmem
      · exact h.fits ⟨timestamp, increment, none⟩ (List.mem_of_getElem? hcall)
    · intro call hmem result hresult
      rcases List.mem_or_eq_of_mem_set hmem with hmem | rfl
      · exact h.results call hmem result hresult
      · cases hresult
        rfl
  next => cases hstep

theorem counted_run {as : List Action} {staticPid : Int16}
    (hrun : Machine.run step (start hash₀ hash₁ hash₂ staticPid initial) as = some s) :
    Counted hash₀ hash₁ hash₂ initial s :=
  Machine.run_invariant (Counted hash₀ hash₁ hash₂ initial)
    (fun _ a _ h hstep => match a with
      | .increment _ => h.increment hstep
      | .construct _ => h.construct hstep)
    (counted_start staticPid) hrun

/-- Numbers in a row are different modulo the length of the row. -/
theorem nodup_map_range_mod (m c : ℕ) {n : ℕ} (h : n ≤ m) :
    ((List.range n).map fun i => (c + (i + 1)) % m).Nodup := by
  apply List.Nodup.map_on _ List.nodup_range
  intro i hi j hj heq
  have hi := List.mem_range.1 hi
  have hj := List.mem_range.1 hj
  have hmod : i ≡ j [MOD m] := Nat.ModEq.add_right_cancel' 1 (Nat.ModEq.add_left_cancel' c heq)
  exact Nat.ModEq.eq_of_lt_of_lt hmod (Nat.lt_of_lt_of_le hi h) (Nat.lt_of_lt_of_le hj h)

/-- In a window of `2 ^ 24` calls no call throws, and the ids are different. -/
theorem generated_nodup (hash₀ hash₁ hash₂ : UInt8) (staticPid : Int16) (initial : Int32)
    (as : List Action)
    (hrun : Machine.run step (start hash₀ hash₁ hash₂ staticPid initial) as = some s)
    (hcalls : s.calls.length ≤ 2 ^ 24) :
    (∀ call ∈ s.calls, ∀ e, call.result ≠ some (.error e)) ∧ s.generated.Nodup := by
  have h := counted_run hrun
  have hmachine : FitsIn3Bytes s.staticMachine := h.machine ▸ fitsIn3Bytes_word3 hash₀ hash₁ hash₂
  have hnew : ∀ call ∈ s.calls, ∀ result, call.result = some result →
      ∃ x : ObjectId, result = .ok x ∧ x.increment = call.increment := by
    intro call hcall result hresult
    rw [h.results call hcall result hresult, ObjectId.new_eq_ok hmachine (h.fits call hcall)]
    exact ⟨_, rfl, rfl⟩
  constructor
  · intro call hcall e he
    obtain ⟨x, hx, -⟩ := hnew call hcall _ he
    cases hx
  · have hdistinct : s.calls.Pairwise fun a b => unsigned a.increment ≠ unsigned b.increment := by
      rw [← List.pairwise_map, h.increments]
      exact nodup_map_range_mod (2 ^ 24) (unsigned initial) hcalls
    have htaken : ∀ call ∈ s.calls, ∀ x, call.result.bind Except.toOption = some x →
        x.increment = call.increment := by
      intro call hcall x hx
      obtain ⟨result, hresult, hok⟩ := Option.bind_eq_some_iff.1 hx
      obtain ⟨x', rfl, hincrement⟩ := hnew call hcall result hresult
      cases hok
      exact hincrement
    rw [generated, List.Nodup, List.pairwise_filterMap]
    refine hdistinct.imp_of_mem ?_
    rintro a b ha hb hne x hx y hy rfl
    rw [← htaken a ha x hx, ← htaken b hb x hy] at hne
    exact hne rfl

/-- Two calls of threads that overtake each other, where the counter wraps. -/
theorem generated_nodup_wrap :
    ∃ s, Machine.run step (start 0xab 0xcd 0xef (-7) 0x7fffffff)
        [.increment 5, .increment 4, .construct 1, .construct 0] = some s ∧
      s.calls.length = 2 ∧ (∀ call ∈ s.calls, ∀ e, call.result ≠ some (.error e)) ∧
        s.generated.Nodup := by
  obtain ⟨s, hrun⟩ : ∃ s, Machine.run step (start 0xab 0xcd 0xef (-7) 0x7fffffff)
      [.increment 5, .increment 4, .construct 1, .construct 0] = some s := ⟨_, rfl⟩
  have hlen : s.calls.length = 2 := by
    cases hrun
    rfl
  exact ⟨s, hrun, hlen, generated_nodup 0xab 0xcd 0xef (-7) 0x7fffffff _ hrun (by omega)⟩

end ObjectIdClass

end IFramework.Infrastructure
