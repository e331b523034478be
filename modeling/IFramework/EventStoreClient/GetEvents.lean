import IFramework.Base
import IFramework.Theory.Loop
import Mathlib.Data.Int.Order.Basic

/-!
# Reading a stream slice by slice

`GetEvents` of the event store client reads a stream in slices of at most 200 events. It treats the
end of the range as exclusive in the size of a slice, and leaves the loop as soon as the stream
reaches the end, whether the slice did or not. `getEvents_exact_iff` says for which ranges the
result is the inclusive range that `IEventStore.GetEvents` of the Redis store returns: those without
an end, and those whose end lies beyond the stream and beyond the start.

The connection and the deserialiser are parameters; `Serves` is what is assumed of the connection.
-/

namespace IFramework.EventStoreClient

open Loop

/-- A `StreamEventsSlice`. -/
structure StreamEventsSlice (R : Type) where
  events : List R
  nextEventNumber : Int
  lastEventNumber : Int
  isEndOfStream : Bool

/-- `ReadStreamEventsForwardAsync` of a connection, from an event number on and with a count. -/
abbrev ReadStreamEventsForwardAsync (ε R : Type) :=
  String → Int → Int → Except ε (StreamEventsSlice R)

/-- The local variables of the loop. -/
structure Reading (R : Type) where
  streamEvents : List R
  nextSliceStart : Int

variable {ε R V : Type}

/-- The conversion `(int)` of a `long`. -/
def toInt (value : Int) : Int := value.bmod 0x100000000

/-- The size of the next slice. -/
def sliceCount (stop : Option Int) (nextSliceStart : Int) : Int :=
  match stop with
  | some stop => toInt (min 200 (stop - nextSliceStart))
  | none => 200

/-- One iteration, and whether the loop goes on. -/
def readSlice (connection : ReadStreamEventsForwardAsync ε R) (id : String) (stop : Option Int)
    (s : Reading R) : Except ε (Reading R × Bool) :=
  match connection id s.nextSliceStart (sliceCount stop s.nextSliceStart) with
  | .error e => .error e
  | .ok slice =>
    let s' : Reading R := ⟨s.streamEvents ++ slice.events, slice.nextEventNumber⟩
    match stop with
    | some stop =>
      if slice.lastEventNumber ≥ stop then .ok (s', false) else .ok (s', !slice.isEndOfStream)
    | none => .ok (s', !slice.isEndOfStream)

/-- What `GetEvents` makes of the events it has read. -/
def toEvents (deserialize : R → Except ε V) : Except ε (Reading R) → Except ε (List V)
  | .error e => .error e
  | .ok s => s.streamEvents.mapM deserialize

/-- `GetEvents` ends with this result. -/
def GetEventsReturns (connection : ReadStreamEventsForwardAsync ε R) (deserialize : R → Except ε V)
    (id : String) (start : Int) (stop : Option Int) (result : Except ε (List V)) : Prop :=
  ∃ r, Returns (readSlice connection id stop) ⟨[], start⟩ r ∧ result = toEvents deserialize r

/-- The events from `start` to `stop`, both included; to the last one without `stop`. -/
def range (events : List R) (start : Int) (stop : Option Int) : List R :=
  match stop with
  | some stop => (events.drop start.toNat).take (stop + 1 - start).toNat
  | none => events.drop start.toNat

/-- What the connection does for a stream of these events. The next event number of an empty slice
is left open. -/
structure Serves (connection : ReadStreamEventsForwardAsync ε R) (id : String)
    (events : List R) : Prop where
  rejects : ∀ start count, count ≤ 0 → ∃ e, connection id start count = .error e
  reads : ∀ start count, 0 ≤ start → 0 < count → ∃ slice, connection id start count = .ok slice ∧
    slice.events = (events.drop start.toNat).take count.toNat ∧
    (slice.events ≠ [] → slice.nextEventNumber = start + slice.events.length) ∧
    slice.lastEventNumber = events.length - 1 ∧
    (slice.isEndOfStream = true ↔ (events.length : Int) ≤ start + count)

/-! ## One slice -/

theorem toInt_of_slice {value : Int} (h : 0 ≤ value) (hle : value ≤ 200) : toInt value = value :=
  Int.bmod_eq_of_le (by omega) (by omega)

theorem sliceCount_some {stop start : Int} (h : start ≤ stop) :
    sliceCount (some stop) start = min 200 (stop - start) :=
  toInt_of_slice (by omega) (by omega)

section Slice

variable {connection : ReadStreamEventsForwardAsync ε R} {id : String} {events : List R}
  {stop : Option Int} {s : Reading R}

/-- While the end lies beyond the stream, a slice is read, and the loop goes on exactly when
something is left. -/
theorem readSlice_of_beyond (h : Serves connection id events) (hstart : 0 ≤ s.nextSliceStart)
    (hcount : 0 < sliceCount stop s.nextSliceStart)
    (hstop : ∀ e ∈ stop, (events.length : Int) ≤ e) :
    ∃ next, readSlice connection id stop s = .ok
      (⟨s.streamEvents ++ (events.drop s.nextSliceStart.toNat).take
          (sliceCount stop s.nextSliceStart).toNat, next⟩,
        decide (s.nextSliceStart + sliceCount stop s.nextSliceStart < events.length)) ∧
      (s.nextSliceStart + sliceCount stop s.nextSliceStart < events.length →
        next = s.nextSliceStart + sliceCount stop s.nextSliceStart) := by
  obtain ⟨slice, hread, hevents, hnext, hlast, hend⟩ := h.reads _ _ hstart hcount
  have hagain : (!slice.isEndOfStream) =
      decide (s.nextSliceStart + sliceCount stop s.nextSliceStart < events.length) := by
    rw [Bool.eq_iff_iff, Bool.not_eq_true', ← Bool.not_eq_true, hend, decide_eq_true_iff, not_le]
  refine ⟨slice.nextEventNumber, ?_, ?_⟩
  · unfold readSlice
    rw [hread]
    cases stop with
    | none => simp only [hagain, hevents]
    | some e =>
      have hbeyond : ¬slice.lastEventNumber ≥ e := by
        have hlt := hstop e rfl
        omega
      simp only [if_neg hbeyond, hagain, hevents]
  · intro hlt
    have hlength : (slice.events.length : Int) = sliceCount stop s.nextSliceStart := by
      rw [hevents, List.length_take, List.length_drop]
      omega
    rw [← hlength]
    apply hnext
    intro hnil
    rw [hnil, List.length_nil] at hlength
    omega

/-- When the stream reaches the end, the first slice is the last one. -/
theorem readSlice_of_reached (h : Serves connection id events) {e : Int}
    (hstart : 0 ≤ s.nextSliceStart) (hlt : s.nextSliceStart < e) (hreached : e < events.length) :
    ∃ next, readSlice connection id (some e) s = .ok
      (⟨s.streamEvents ++ (events.drop s.nextSliceStart.toNat).take
          (min 200 (e - s.nextSliceStart)).toNat, next⟩, false) := by
  obtain ⟨slice, hread, hevents, -, hlast, -⟩ :=
    h.reads s.nextSliceStart (min 200 (e - s.nextSliceStart)) hstart (by omega)
  refine ⟨slice.nextEventNumber, ?_⟩
  have hge : slice.lastEventNumber ≥ e := by omega
  unfold readSlice
  rw [sliceCount_some (le_of_lt hlt), hread]
  simp only [if_pos hge, hevents]

end Slice

/-! ## The loop -/

section GetEvents

variable {connection : ReadStreamEventsForwardAsync ε R} {id : String} {events : List R}
  {start : Int} {stop : Option Int}

/-- What has been read is a part of the stream from `start` on. -/
def ReadFrom (events : List R) (start : Int) (s : Reading R) : Prop :=
  start ≤ s.nextSliceStart ∧
    s.streamEvents = (events.drop start.toNat).take (s.nextSliceStart - start).toNat ∧
      (s.nextSliceStart = start ∨ s.nextSliceStart < events.length)

theorem take_drop_append_take {n k c : Nat} :
    (events.drop n).take k ++ (events.drop (n + k)).take c = (events.drop n).take (k + c) := by
  rw [List.take_add, List.drop_drop]

/-- Without an end, or with one beyond the stream, the loop reads the whole rest of the stream. -/
theorem returns_rest (h : Serves connection id events) (hstart : 0 ≤ start)
    (hstop : ∀ e ∈ stop, start < e ∧ (events.length : Int) ≤ e) :
    ∃ s, Returns (readSlice connection id stop) ⟨[], start⟩ (.ok s) ∧
      s.streamEvents = events.drop start.toNat := by
  refine returns_of_measure (ReadFrom events start) _
    (fun s => (events.length - s.nextSliceStart).toNat) ?_ ⟨le_refl _, by simp, .inl rfl⟩
  rintro s ⟨hle, hread, hnext⟩
  have hcount : 0 < sliceCount stop s.nextSliceStart := by
    cases stop with
    | none => exact (by decide : (0 : Int) < 200)
    | some e =>
      obtain ⟨hlt, hbeyond⟩ := hstop e rfl
      rw [sliceCount_some (by omega)]
      omega
  obtain ⟨next, hstep, hagain⟩ :=
    readSlice_of_beyond h (by omega : 0 ≤ s.nextSliceStart) hcount fun e he => (hstop e he).2
  have hsplit : s.nextSliceStart.toNat = start.toNat + (s.nextSliceStart - start).toNat := by omega
  rw [hread, hsplit, take_drop_append_take] at hstep
  refine ⟨_, _, hstep, ?_, ?_⟩
  · intro hlt
    have hlt := of_decide_eq_true hlt
    have hnext' := hagain hlt
    subst hnext'
    have htake : (s.nextSliceStart + sliceCount stop s.nextSliceStart - start).toNat =
        (s.nextSliceStart - start).toNat + (sliceCount stop s.nextSliceStart).toNat := by omega
    refine ⟨⟨by simp only; omega, by simp only [htake], .inr hlt⟩, by simp only; omega⟩
  · intro hdone
    have hdone := of_decide_eq_false hdone
    refine List.take_of_length_le ?_
    rw [List.length_drop]
    omega

variable {deserialize : R → Except ε V} {toEvent : R → V}

theorem toEvents_of_read (hdeserialize : ∀ r ∈ events, deserialize r = .ok (toEvent r))
    {s : Reading R} (hread : s.streamEvents ⊆ events) :
    toEvents deserialize (.ok s) = .ok (s.streamEvents.map toEvent) :=
  mapM_eq_ok fun r hr => hdeserialize r (hread hr)

theorem range_length {e : Int} (h : 0 ≤ start) (hle : start ≤ e) (hlt : e < events.length) :
    (range events start (some e)).length = e + 1 - start := by
  rw [range, List.length_take, List.length_drop]
  omega

/-- With an end that the stream reaches, `GetEvents` throws or returns too few events. -/
theorem not_exact_of_reached (h : Serves connection id events)
    (hdeserialize : ∀ r ∈ events, deserialize r = .ok (toEvent r)) (hstart : 0 ≤ start) {e : Int}
    (hle : start ≤ e) (hreached : e = start ∨ e < events.length) :
    ¬GetEventsReturns connection deserialize id start (some e)
      (.ok ((range events start (some e)).map toEvent)) := by
  rintro ⟨r, hreturns, hresult⟩
  rcases eq_or_lt_of_le hle with heq | hlt
  · obtain ⟨error, herror⟩ := h.rejects start (sliceCount (some e) start)
      (by rw [sliceCount_some hle]; omega)
    have hbody : readSlice connection id (some e) ⟨[], start⟩ = .error error := by
      unfold readSlice
      rw [herror]
    cases hreturns.unique (returns_error hbody)
    cases hresult
  · have hreached : e < events.length := by omega
    obtain ⟨next, hbody⟩ := readSlice_of_reached h (s := ⟨[], start⟩) hstart hlt hreached
    cases hreturns.unique (returns_done hbody)
    rw [List.nil_append, toEvents_of_read hdeserialize fun r hr =>
      List.mem_of_mem_drop (List.mem_of_mem_take hr)] at hresult
    have hlength := congrArg List.length (Except.ok.inj hresult)
    have hrange := range_length hstart hle hreached
    rw [List.length_map, List.length_map, List.length_take, List.length_drop] at hlength
    simp only at hlength
    omega

/-- For every stream, every start and every end that is not before the start: `GetEvents` ends
without an exception and returns the events from the start to the end, both included, exactly when
there is no end or the end lies beyond the start and beyond the last event. -/
theorem getEvents_exact_iff (h : Serves connection id events)
    (hdeserialize : ∀ r ∈ events, deserialize r = .ok (toEvent r)) (hstart : 0 ≤ start)
    (hstop : ∀ e ∈ stop, start ≤ e) :
    GetEventsReturns connection deserialize id start stop
        (.ok ((range events start stop).map toEvent)) ↔
      ∀ e ∈ stop, start < e ∧ (events.length : Int) ≤ e := by
  constructor
  · rintro hreturns e rfl
    have hle := hstop e rfl
    by_contra hbeyond
    refine not_exact_of_reached h hdeserialize hstart hle ?_ hreturns
    omega
  · intro hbeyond
    obtain ⟨s, hreturns, hread⟩ := returns_rest h hstart hbeyond
    have hrange : range events start stop = events.drop start.toNat := by
      cases stop with
      | none => rfl
      | some e =>
        have hlt := (hbeyond e rfl).2
        refine List.take_of_length_le ?_
        rw [List.length_drop]
        omega
    refine ⟨.ok s, hreturns, ?_⟩
    rw [toEvents_of_read hdeserialize (hread ▸ List.drop_subset _ _), hread, hrange]

/-- A connection to one stream, in memory. -/
def streamConnection (events : List R) : ReadStreamEventsForwardAsync Unit R :=
  fun _ start count =>
    if count ≤ 0 then .error ()
    else
      .ok ⟨(events.drop start.toNat).take count.toNat, min (start + count) events.length,
        events.length - 1, decide ((events.length : Int) ≤ start + count)⟩

theorem streamConnection_serves (id : String) (events : List R) :
    Serves (streamConnection events) id events where
  rejects start count hcount := ⟨(), if_pos hcount⟩
  reads start count hstart hcount := by
    refine ⟨_, if_neg (not_le.2 hcount), rfl, ?_, rfl, decide_eq_true_iff⟩
    intro hnil
    have hpos := List.length_pos_iff.2 hnil
    simp only [List.length_take, List.length_drop] at hpos ⊢
    omega

theorem ok_of_mem (events : List R) :
    ∀ r ∈ events, (.ok r : Except Unit R) = .ok ((fun r => r) r) :=
  fun _ _ => rfl

/-- Ten events, from the fourth one to an end beyond the stream. -/
theorem getEvents_exact_of_ten :
    GetEventsReturns (streamConnection (List.range 10)) .ok "s" 3 (some 12)
      (.ok [3, 4, 5, 6, 7, 8, 9]) :=
  (getEvents_exact_iff (streamConnection_serves "s" (List.range 10)) (ok_of_mem _)
    (by decide : (0 : Int) ≤ 3) (by decide : ∀ e ∈ some (12 : Int), 3 ≤ e)).2 (by decide)

/-- Of ten events, the end `5` is not returned, and a range of one event throws. -/
theorem getEvents_inexact_of_ten :
    ¬GetEventsReturns (streamConnection (List.range 10)) .ok "s" 0 (some 5)
        (.ok [0, 1, 2, 3, 4, 5]) ∧
      ¬GetEventsReturns (streamConnection (List.range 10)) .ok "s" 4 (some 4) (.ok [4]) := by
  have hserves := streamConnection_serves "s" (List.range 10)
  constructor
  · exact not_exact_of_reached hserves (ok_of_mem _) (by decide : (0 : Int) ≤ 0)
      (by decide : (0 : Int) ≤ 5) (.inr (by decide))
  · exact not_exact_of_reached hserves (ok_of_mem _) (by decide : (0 : Int) ≤ 4)
      (le_refl (4 : Int)) (.inl rfl)

end GetEvents

end IFramework.EventStoreClient
