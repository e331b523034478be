import IFramework.Theory.Run
import Mathlib.Data.Int.Order.Basic
import Mathlib.Data.List.AList

/-!
# Reading through a cache

`CacheExtensions.Get` looks a key up in a cache manager, calls `acquire` when there is no value, and
sets what it got. A call that asks for no caching time acquires at once and never looks. Each of the
three and the return are atomic steps of their own, so that calls of the same key overlap, remove
what another is about to set, set what has been removed, or return what has been removed.

Times are ticks of one clock in UTC that never goes back. `acquire` reads a source whose value at
each time is a parameter, the same for all calls of a key. `MemoryCache` and the time zone of
`DateTime.Now` are parameters of `memoryCacheManager`, with what is documented of them as hypotheses
(`MemoryCache.Documented`, `Clock.ShiftsAtMost`). Of a manager only `CacheManager.Keeps` is used: it
holds what it was given at most until the end of its caching time, or later by a change of the local
time. From this follow how old a returned value can be (`staleness_bounded`) and what `Remove` does
(`fresh_after_remove`): nothing from before it is seen again, unless a call of the key had acquired
or had its answer when it happened.
-/

namespace IFramework.Caching

open Machine

/-- A `CacheValue`. -/
structure CacheValue (V : Type) where
  value : V
  hasValue : Bool
  deriving DecidableEq

/-- `CacheValue.NoValue`. -/
def CacheValue.noValue {V : Type} [Inhabited V] : CacheValue V := ⟨default, false⟩

/-- `TimeSpan.FromMinutes`, in ticks. -/
def fromMinutes (minutes : Int) : Int := minutes * 600000000

/-- `ICacheManager`, with the time as an argument where the implementation reads the clock. -/
structure CacheManager (σ K V : Type) where
  get : σ → Int → K → CacheValue V
  set : σ → Int → K → V → Int → σ
  remove : σ → K → σ

/-- What the store holds: under a key a value until a time. -/
abbrev Held (σ K V : Type) := σ → K → V → Int → Prop

/-- The manager returns only what it holds, before its time is over, and holds only what was set for
a caching time (and at most `shift` ticks more) and has neither been set again nor removed. -/
structure CacheManager.Keeps {σ K V : Type} (manager : CacheManager σ K V) (held : Held σ K V)
    (shift : Nat) : Prop where
  get : ∀ {store now key}, (manager.get store now key).hasValue = true →
    ∃ expiry, held store key (manager.get store now key).value expiry ∧ now < expiry
  set : ∀ {store now key value minutes key' value' expiry},
    held (manager.set store now key value minutes) key' value' expiry →
    (key' = key ∧ value' = value ∧ expiry ≤ now + fromMinutes minutes + shift) ∨
      key' ≠ key ∧ held store key' value' expiry
  remove : ∀ {store key key' value' expiry}, held (manager.remove store key) key' value' expiry →
    key' ≠ key ∧ held store key' value' expiry

/-! ## The managers -/

/-- `MemoryCache` of Microsoft.Extensions.Caching.Memory, with the time as an argument. -/
structure MemoryCache (σ K E : Type) where
  get : σ → Int → K → Option E
  set : σ → Int → K → E → Int → σ
  remove : σ → K → σ

/-- What is documented of a `MemoryCache`: an entry is not returned once its absolute expiration has
come, `Set` replaces the entry of the key and `Remove` takes it away. An entry may go earlier. -/
structure MemoryCache.Documented {σ K E : Type} (cache : MemoryCache σ K E)
    (holds : σ → K → E → Int → Prop) : Prop where
  get : ∀ {store now key entry}, cache.get store now key = some entry →
    ∃ absoluteExpiration, holds store key entry absoluteExpiration ∧ now < absoluteExpiration
  set : ∀ {store now key entry absoluteExpiration key' entry' absoluteExpiration'},
    holds (cache.set store now key entry absoluteExpiration) key' entry' absoluteExpiration' →
    (key' = key ∧ entry' = entry ∧ absoluteExpiration' = absoluteExpiration) ∨
      key' ≠ key ∧ holds store key' entry' absoluteExpiration'
  remove : ∀ {store key key' entry' absoluteExpiration'},
    holds (cache.remove store key) key' entry' absoluteExpiration' →
    key' ≠ key ∧ holds store key' entry' absoluteExpiration'

/-- The time zone of the machine: `DateTime.Now` at a time, and the time that a local one is taken
for where a `DateTimeOffset` is wanted. -/
structure Clock where
  dateTimeNow : Int → Int
  toDateTimeOffset : Int → Int

/-- A local time is taken for one that is at most `shift` ticks late: by so much the clocks are put
back at most. -/
def Clock.ShiftsAtMost (clock : Clock) (shift : Nat) : Prop :=
  ∀ now ticks, clock.toDateTimeOffset (clock.dateTimeNow now + ticks) ≤ now + ticks + shift

/-- A time zone without changes. -/
def Clock.fixedOffset (offset : Int) : Clock where
  dateTimeNow now := now + offset
  toDateTimeOffset localTime := localTime - offset

theorem Clock.shiftsAtMost_fixedOffset (offset : Int) : (fixedOffset offset).ShiftsAtMost 0 := by
  intro now ticks
  simp only [fixedOffset]
  omega

section Managers

variable {σ K V : Type} [Inhabited V]

/-- `MemoryCacheManager`. Its `Set` reads `DateTime.Now`, which is local time. -/
def memoryCacheManager (cache : MemoryCache σ K (CacheValue V)) (clock : Clock) :
    CacheManager σ K V where
  get store now key := (cache.get store now key).getD CacheValue.noValue
  set store now key data cacheTime :=
    cache.set store now key ⟨data, true⟩
      (clock.toDateTimeOffset (clock.dateTimeNow now + fromMinutes cacheTime))
  remove store key := cache.remove store key

/-- `NullCacheManager`. -/
def nullCacheManager : CacheManager Unit K V where
  get _ _ _ := CacheValue.noValue
  set _ _ _ _ _ := ()
  remove _ _ := ()

theorem keeps_memoryCacheManager {cache : MemoryCache σ K (CacheValue V)}
    {holds : σ → K → CacheValue V → Int → Prop} (hcache : cache.Documented holds) {clock : Clock}
    {shift : Nat} (hclock : clock.ShiftsAtMost shift) :
    (memoryCacheManager cache clock).Keeps (fun store key value => holds store key ⟨value, true⟩)
      shift where
  get {store now key} h := by
    simp only [memoryCacheManager] at h ⊢
    cases hget : cache.get store now key with
    | none => simp [hget, CacheValue.noValue] at h
    | some entry =>
      obtain ⟨value, hasValue⟩ := entry
      simp only [hget, Option.getD_some] at h ⊢
      subst h
      exact hcache.get hget
  set {store now key value minutes key' value' expiry} h := by
    obtain ⟨hkey, hvalue, hexpiry⟩ | hother := hcache.set h
    · refine .inl ⟨hkey, congrArg CacheValue.value hvalue, ?_⟩
      rw [hexpiry]
      exact hclock now (fromMinutes minutes)
    · exact .inr hother
  remove h := hcache.remove h

theorem keeps_nullCacheManager (shift : Nat) :
    (nullCacheManager (K := K) (V := V)).Keeps (fun _ _ _ _ => False) shift where
  get h := by cases h
  set h := h.elim
  remove h := h.elim

end Managers

/-! ## The calls -/

/-- Where a call of `CacheExtensions.Get` stands; an acquired value with the time of `acquire`, the
answer with the time since when the call has it, what is returned with the time of the return. -/
inductive Call (K V : Type) where
  | get (key : K) (cacheTime : Int)
  | acquire (key : K) (cacheTime : Int)
  | set (key : K) (cacheTime : Int) (value : V) (acquiredAt : Int)
  | answer (key : K) (cacheValue : CacheValue V) (since : Int)
  | returned (key : K) (cacheValue : CacheValue V) (returnedAt : Int)
  | thrown
  deriving DecidableEq

/-- The store of the manager, the clock and the calls. -/
structure State (σ K V : Type) where
  store : σ
  now : Int
  calls : List (Call K V)

inductive Action (K : Type) where
  | begin (key : K) (cacheTime : Int)
  /-- The next step of a call. -/
  | next (call : Nat)
  /-- The next step of a call throws. -/
  | fail (call : Nat)
  | remove (key : K)
  | tick (ticks : Nat)

section Step

variable {σ K V : Type} (manager : CacheManager σ K V) (source : Int → K → V)

/-- A store of the manager after a step of a call, and the call. `Get` returns without a look at the
cache when there is no caching time. -/
def Call.next (store : σ) (now : Int) : Call K V → Option (σ × Call K V)
  | .get key cacheTime =>
    if cacheTime ≤ 0 then some (store, .acquire key cacheTime)
    else
      let cacheValue := manager.get store now key
      if cacheValue.hasValue then some (store, .answer key cacheValue now)
      else some (store, .acquire key cacheTime)
  | .acquire key cacheTime =>
    let value := source now key
    if cacheTime ≤ 0 then some (store, .answer key ⟨value, true⟩ now)
    else some (store, .set key cacheTime value now)
  | .set key cacheTime value _ =>
    some (manager.set store now key value cacheTime, .answer key ⟨value, true⟩ now)
  | .answer key cacheValue _ => some (store, .returned key cacheValue now)
  | .returned .. => none
  | .thrown => none

/-- A call that is going to return what it has or has returned it. -/
def Call.hasAnswer : Call K V → Bool
  | .answer .. => true
  | .returned .. => true
  | _ => false

/-- A call that has not ended. -/
def Call.isRunning : Call K V → Bool
  | .returned .. => false
  | .thrown => false
  | _ => true

/-- One atomic step. -/
def step (s : State σ K V) : Action K → Option (State σ K V)
  | .begin key cacheTime => some { s with calls := s.calls ++ [.get key cacheTime] }
  | .next i =>
    s.calls[i]?.bind fun call =>
      (call.next manager source s.store s.now).map fun (store, call') =>
        { s with store, calls := s.calls.set i call' }
  | .fail i =>
    s.calls[i]?.bind fun call =>
      if call.isRunning then some { s with calls := s.calls.set i .thrown } else none
  | .remove key => some { s with store := manager.remove s.store key }
  | .tick ticks => some { s with now := s.now + ticks }

/-! ## Where a value comes from -/

variable {manager source} {held : Held σ K V} {shift : Nat}

/-- What is known of a value under a key by the time when it was acquired: in the store, with its
expiry; between `acquire` and `Set`; as an answer, with the time since when it is one; and returned,
with the time of the return. -/
structure Rule (K V : Type) where
  entry : K → V → Int → Int → Prop
  fill : K → V → Int → Prop
  answer : K → V → Int → Int → Prop
  result : K → V → Int → Int → Prop

/-- Every value is known by the rule, but for the calls that had their answer `before`. -/
structure Traced (held : Held σ K V) (rule : Rule K V) (before : Nat → Prop) (s : State σ K V) :
    Prop where
  entry : ∀ {key value expiry}, held s.store key value expiry →
    ∃ t ≤ s.now, rule.entry key value t expiry
  fill : ∀ {i : Nat} {key : K} {cacheTime : Int} {value : V} {t : Int},
    s.calls[i]? = some (.set key cacheTime value t) → t ≤ s.now ∧ rule.fill key value t
  answer : ∀ {i : Nat} {key : K} {cacheValue : CacheValue V} {u : Int},
    s.calls[i]? = some (.answer key cacheValue u) → u ≤ s.now ∧
      (before i ∨ ∃ t ≤ u, cacheValue.hasValue = true ∧ rule.answer key cacheValue.value t u)
  result : ∀ {i : Nat} {key : K} {cacheValue : CacheValue V} {t' : Int},
    s.calls[i]? = some (.returned key cacheValue t') →
      before i ∨ ∃ t ≤ t', cacheValue.hasValue = true ∧ rule.result key cacheValue.value t t'

/-- What the rule says goes on with the steps of a call at this time; `may` is what is known of the
call that takes the step. -/
structure Rule.Keeps (rule : Rule K V) (source : Int → K → V) (now : Int) (shift : Nat)
    (may : Call K V → Prop) : Prop where
  acquire : ∀ key, rule.fill key (source now key) now ∧ rule.answer key (source now key) now now
  set : ∀ {key cacheTime value t}, t ≤ now → may (.set key cacheTime value t) →
    rule.fill key value t → rule.answer key value t now ∧
      ∀ expiry ≤ now + fromMinutes cacheTime + shift, rule.entry key value t expiry
  hit : ∀ {key value t expiry}, t ≤ now → now < expiry → rule.entry key value t expiry →
    rule.answer key value t now
  answered : ∀ {key cacheValue t u}, t ≤ u → u ≤ now → may (.answer key cacheValue u) →
    rule.answer key cacheValue.value t u → rule.result key cacheValue.value t now

variable {rule : Rule K V} {before : Nat → Prop} {s s' : State σ K V}

/-- A call goes on to a point that the rule knows, with a store that it knows. -/
theorem Traced.update (h : Traced held rule before s) {store : σ} {i : Nat} {call : Call K V}
    (hstore : ∀ {key value expiry}, held store key value expiry →
      ∃ t ≤ s.now, rule.entry key value t expiry)
    (hfill : ∀ {key cacheTime value t}, call = .set key cacheTime value t →
      t ≤ s.now ∧ rule.fill key value t)
    (hanswer : ∀ {key cacheValue u}, call = .answer key cacheValue u → u ≤ s.now ∧
      ∃ t ≤ u, cacheValue.hasValue = true ∧ rule.answer key cacheValue.value t u)
    (hresult : ∀ {key cacheValue t'}, call = .returned key cacheValue t' →
      before i ∨ ∃ t ≤ t', cacheValue.hasValue = true ∧ rule.result key cacheValue.value t t') :
    Traced held rule before { s with store, calls := s.calls.set i call } where
  entry := hstore
  fill {j _ _ _ _} hj := by
    rw [List.getElem?_set] at hj
    split at hj
    · split at hj
      · exact hfill (Option.some.inj hj)
      · cases hj
    · exact h.fill hj
  answer {j _ _ _} hj := by
    rw [List.getElem?_set] at hj
    split at hj
    · split at hj
      · obtain ⟨hu, hknown⟩ := hanswer (Option.some.inj hj)
        exact ⟨hu, .inr hknown⟩
      · cases hj
    · exact h.answer hj
  result {j _ _ _} hj := by
    rw [List.getElem?_set] at hj
    split at hj
    · next hij =>
      subst hij
      split at hj
      · exact hresult (Option.some.inj hj)
      · cases hj
    · exact h.result hj

/-- A call goes on to `acquire`, or throws. -/
theorem Traced.update_store (h : Traced held rule before s) {i : Nat} {call : Call K V}
    (hset : ∀ key cacheTime value t, call ≠ .set key cacheTime value t)
    (hcall : call.hasAnswer = false) :
    Traced held rule before { s with calls := s.calls.set i call } := by
  refine h.update h.entry (fun hfill => absurd hfill (hset _ _ _ _)) ?_ ?_
  · rintro _ _ _ rfl
    cases hcall
  · rintro _ _ _ rfl
    cases hcall

/-- A call gets its answer, with a store that the rule knows. -/
theorem Traced.update_answer (h : Traced held rule before s) {store : σ} {i : Nat} {key : K}
    {cacheValue : CacheValue V} {t : Int}
    (hstore : ∀ {key value expiry}, held store key value expiry →
      ∃ t ≤ s.now, rule.entry key value t expiry)
    (ht : t ≤ s.now) (hvalue : cacheValue.hasValue = true)
    (hanswer : rule.answer key cacheValue.value t s.now) :
    Traced held rule before
      { s with store, calls := s.calls.set i (.answer key cacheValue s.now) } := by
  refine h.update hstore (by rintro _ _ _ _ ⟨⟩) ?_ (by rintro _ _ _ ⟨⟩)
  rintro _ _ _ ⟨⟩
  exact ⟨le_rfl, t, ht, hvalue, hanswer⟩

theorem Traced.next (h : Traced held rule before s) (hm : manager.Keeps held shift)
    {may : Call K V → Prop} (hrule : rule.Keeps source s.now shift may) {i : Nat}
    {call call' : Call K V} {store : σ} (hi : s.calls[i]? = some call) (hmay : may call)
    (hcall : call.next manager source s.store s.now = some (store, call')) :
    Traced held rule before { s with store, calls := s.calls.set i call' } := by
  cases call with
  | get key cacheTime =>
    simp only [Call.next] at hcall
    split at hcall
    · cases hcall
      exact h.update_store (by rintro _ _ _ _ ⟨⟩) rfl
    · split at hcall
      · next hvalue =>
        cases hcall
        obtain ⟨expiry, hheld, hlt⟩ := hm.get hvalue
        obtain ⟨t, ht, hentry⟩ := h.entry hheld
        exact h.update_answer h.entry ht hvalue (hrule.hit ht hlt hentry)
      · cases hcall
        exact h.update_store (by rintro _ _ _ _ ⟨⟩) rfl
  | acquire key cacheTime =>
    obtain ⟨hfill, hanswer⟩ := hrule.acquire key
    simp only [Call.next] at hcall
    split at hcall
    · cases hcall
      exact h.update_answer h.entry le_rfl rfl hanswer
    · cases hcall
      refine h.update h.entry ?_ (by rintro _ _ _ ⟨⟩) (by rintro _ _ _ ⟨⟩)
      rintro _ _ _ _ ⟨⟩
      exact ⟨le_rfl, hfill⟩
  | set key cacheTime value t =>
    obtain ⟨ht, hfill⟩ := h.fill hi
    obtain ⟨hanswer, hentry⟩ := hrule.set ht hmay hfill
    cases hcall
    refine h.update_answer (fun hheld => ?_) ht rfl hanswer
    obtain ⟨rfl, rfl, hexpiry⟩ | ⟨-, hheld⟩ := hm.set hheld
    · exact ⟨t, ht, hentry _ hexpiry⟩
    · exact h.entry hheld
  | answer key cacheValue u =>
    obtain ⟨hu, hknown⟩ := h.answer hi
    cases hcall
    refine h.update h.entry (by rintro _ _ _ _ ⟨⟩) (by rintro _ _ _ ⟨⟩) ?_
    rintro _ _ _ ⟨⟩
    obtain hold | ⟨t, ht, hvalue, hanswer⟩ := hknown
    · exact .inl hold
    · exact .inr ⟨t, le_trans ht hu, hvalue, hrule.answered ht hu hmay hanswer⟩
  | returned => cases hcall
  | thrown => cases hcall

theorem Traced.step (h : Traced held rule before s) (hm : manager.Keeps held shift)
    {may : Call K V → Prop} (hrule : rule.Keeps source s.now shift may) {a : Action K}
    (hmay : ∀ i call, a = .next i → s.calls[i]? = some call → may call)
    (hs : Caching.step manager source s a = some s') : Traced held rule before s' := by
  cases a with
  | begin key cacheTime =>
    cases hs
    -- The new call is at its look-up, so what is set, an answer or returned is among the others.
    have hget : ∀ {i : Nat} {call : Call K V},
        (s.calls ++ [.get key cacheTime])[i]? = some call → call ≠ .get key cacheTime →
          s.calls[i]? = some call := by
      intro i call hi hne
      rw [List.getElem?_append] at hi
      split at hi
      · exact hi
      · cases hi' : i - s.calls.length with
        | zero =>
          rw [hi'] at hi
          exact absurd (Option.some.inj hi).symm hne
        | succ n => simp [hi'] at hi
    exact ⟨h.entry, fun hi => h.fill (hget hi (by rintro ⟨⟩)),
      fun hi => h.answer (hget hi (by rintro ⟨⟩)), fun hi => h.result (hget hi (by rintro ⟨⟩))⟩
  | next i =>
    obtain ⟨call, hi, hs⟩ := Option.bind_eq_some_iff.1 hs
    obtain ⟨⟨store, call'⟩, hcall, rfl⟩ := Option.map_eq_some_iff.1 hs
    exact h.next hm hrule hi (hmay i call rfl hi) hcall
  | fail i =>
    obtain ⟨call, -, hs⟩ := Option.bind_eq_some_iff.1 hs
    split at hs
    · cases hs
      exact h.update_store (by rintro _ _ _ _ ⟨⟩) rfl
    · cases hs
  | remove key =>
    cases hs
    exact ⟨fun hheld => h.entry (hm.remove hheld).2, h.fill, h.answer, h.result⟩
  | tick ticks =>
    cases hs
    have hle : s.now ≤ s.now + (ticks : Int) := by omega
    refine ⟨fun hheld => ?_, fun hi => ?_, fun hi => ?_, h.result⟩
    · obtain ⟨t, ht, hentry⟩ := h.entry hheld
      exact ⟨t, le_trans ht hle, hentry⟩
    · obtain ⟨ht, hfill⟩ := h.fill hi
      exact ⟨le_trans ht hle, hfill⟩
    · obtain ⟨hu, hknown⟩ := h.answer hi
      exact ⟨le_trans hu hle, hknown⟩

theorem now_le_of_step {a : Action K} (hs : Caching.step manager source s a = some s') :
    s.now ≤ s'.now := by
  cases a with
  | begin key cacheTime => exact (Option.some.inj hs) ▸ le_rfl
  | next i =>
    obtain ⟨call, -, hs⟩ := Option.bind_eq_some_iff.1 hs
    obtain ⟨-, -, rfl⟩ := Option.map_eq_some_iff.1 hs
    exact le_rfl
  | fail i =>
    obtain ⟨call, -, hs⟩ := Option.bind_eq_some_iff.1 hs
    split at hs
    · exact (Option.some.inj hs) ▸ le_rfl
    · cases hs
  | remove key => exact (Option.some.inj hs) ▸ le_rfl
  | tick ticks =>
    cases hs
    show s.now ≤ s.now + (ticks : Int)
    omega

/-! ## How old a value can be -/

/-- A call sets within `delay` of `acquire`, for no more than the minutes of its key, and returns
within `latency` of having its answer. -/
def Call.timely (delay latency : Nat) (minutes : K → Nat) (now : Int) : Call K V → Bool
  | .set key cacheTime _ acquiredAt => cacheTime ≤ minutes key && now ≤ acquiredAt + delay
  | .answer _ _ since => now ≤ since + latency
  | _ => true

/-- The call that goes on is timely. -/
def timely (delay latency : Nat) (minutes : K → Nat) (s : State σ K V) : Action K → Bool
  | .next i => s.calls[i]?.all (Call.timely delay latency minutes s.now)
  | _ => true

/-- The value of the source at the time, and not too old by now. -/
def ageRule (source : Int → K → V) (delay latency : Nat) (minutes : K → Nat) (shift : Nat) :
    Rule K V where
  entry key value t expiry :=
    value = source t key ∧ expiry ≤ t + delay + fromMinutes (minutes key) + shift
  fill key value t := value = source t key
  answer key value t u :=
    value = source t key ∧ u ≤ t + delay + fromMinutes (minutes key) + shift
  result key value t t' :=
    value = source t key ∧ t' ≤ t + delay + fromMinutes (minutes key) + shift + latency

theorem keeps_ageRule (source : Int → K → V) (delay latency : Nat) (minutes : K → Nat)
    (shift : Nat) (now : Int) :
    (ageRule source delay latency minutes shift).Keeps source now shift fun call =>
      call.timely delay latency minutes now = true where
  acquire key := by
    refine ⟨rfl, rfl, ?_⟩
    simp only [fromMinutes]
    omega
  set {key cacheTime value t} ht hmay hfill := by
    obtain ⟨hminutes, hdelay⟩ : cacheTime ≤ minutes key ∧ now ≤ t + delay := by
      simpa [Call.timely] using hmay
    refine ⟨⟨hfill, ?_⟩, fun expiry hexpiry => ⟨hfill, ?_⟩⟩ <;> simp only [fromMinutes] at * <;>
      omega
  hit {key value t expiry} ht hlt hentry := ⟨hentry.1, by have := hentry.2; omega⟩
  answered {key cacheValue t u} ht hu hmay hanswer := by
    have hlatency : now ≤ u + latency := by simpa [Call.timely] using hmay
    exact ⟨hanswer.1, by have := hanswer.2; omega⟩

/-- In every run that starts with an empty store: what a call returns was the value of the source at
a time that is no further back than the minutes of the key, the time that a call takes to set, the
time that one takes to return its answer, and the change of the local time. -/
theorem staleness_bounded (hm : manager.Keeps held shift) {store : σ} {now : Int}
    (hempty : ∀ key value expiry, ¬held store key value expiry) (delay latency : Nat)
    (minutes : K → Nat) {actions : List (Action K)}
    (hrun : run (Caching.step manager source) ⟨store, now, []⟩ actions = some s)
    (htimely : Along (Caching.step manager source)
      (fun s a => timely delay latency minutes s a = true) ⟨store, now, []⟩ actions) {key : K}
    {cacheValue : CacheValue V} {t' : Int} (hmem : .returned key cacheValue t' ∈ s.calls) :
    ∃ t ≤ t', cacheValue = ⟨source t key, true⟩ ∧
      t' ≤ t + delay + fromMinutes (minutes key) + shift + latency := by
  have hinit : Traced held (ageRule source delay latency minutes shift) (fun _ => False)
      (⟨store, now, []⟩ : State σ K V) :=
    ⟨fun h => absurd h (hempty _ _ _), by simp, by simp, by simp⟩
  have htraced : Traced held (ageRule source delay latency minutes shift) (fun _ => False) s := by
    refine htimely.invariant _ (fun s a s' h ha hs => ?_) hinit hrun
    refine h.step hm (keeps_ageRule source delay latency minutes shift s.now) ?_ hs
    rintro i call rfl hi
    simpa [timely, hi] using ha
  obtain ⟨i, hi⟩ := List.mem_iff_getElem?.1 hmem
  obtain hold | ⟨t, ht, hvalue, hsource, hage⟩ := htraced.result hi
  · exact hold.elim
  · refine ⟨t, ht, ?_, hage⟩
    obtain ⟨value, hasValue⟩ := cacheValue
    cases hvalue
    cases hsource
    rfl

end Step

/-! ### A memory cache -/

section Sample

variable {K E : Type} [DecidableEq K]

/-- A memory cache that holds each entry until its absolute expiration. -/
def sampleCache : MemoryCache (AList fun _ : K => E × Int) K E where
  get store now key :=
    (store.lookup key).bind fun (entry, absoluteExpiration) =>
      if absoluteExpiration ≤ now then none else some entry
  set store _ key entry absoluteExpiration := store.insert key (entry, absoluteExpiration)
  remove store key := store.erase key

theorem sampleCache_documented : (sampleCache (K := K) (E := E)).Documented
    fun store key entry absoluteExpiration =>
      store.lookup key = some (entry, absoluteExpiration) where
  get {store now key entry} h := by
    obtain ⟨⟨entry', absoluteExpiration⟩, hlookup, h⟩ := Option.bind_eq_some_iff.1 h
    simp only at h
    split at h
    · cases h
    · next hexpired =>
      cases h
      exact ⟨absoluteExpiration, hlookup, not_le.1 hexpired⟩
  set {store now key entry absoluteExpiration key' entry' absoluteExpiration'} h := by
    simp only [sampleCache] at h
    by_cases hkey : key' = key
    · subst hkey
      rw [AList.lookup_insert] at h
      cases h
      exact .inl ⟨rfl, rfl, rfl⟩
    · rw [AList.lookup_insert_ne hkey] at h
      exact .inr ⟨hkey, h⟩
  remove {store key key' entry' absoluteExpiration'} h := by
    simp only [sampleCache] at h
    by_cases hkey : key' = key
    · subst hkey
      rw [AList.lookup_erase] at h
      cases h
    · rw [AList.lookup_erase_ne hkey] at h
      exact ⟨hkey, h⟩

end Sample

/-- The manager over it, eight hours east of UTC. -/
def sampleManager : CacheManager (AList fun _ : String => CacheValue Int × Int) String Int :=
  memoryCacheManager sampleCache (Clock.fixedOffset (fromMinutes 480))

theorem keeps_sampleManager : sampleManager.Keeps
    (fun store key value expiry => store.lookup key = some (⟨value, true⟩, expiry)) 0 :=
  keeps_memoryCacheManager sampleCache_documented (Clock.shiftsAtMost_fixedOffset _)

/-- A call fills the cache and takes its time to return, a later one is answered from it. -/
def lookups : List (Action String) :=
  [.begin "a" 60, .next 0, .next 0, .tick 5, .next 0, .tick 2, .next 0, .tick 100, .begin "a" 60,
    .next 1, .next 1]

theorem staleness_bounded_lookups : ∃ s,
    run (step sampleManager fun t (_ : String) => t) ⟨∅, 0, []⟩ lookups = some s ∧
      .returned "a" ⟨0, true⟩ 107 ∈ s.calls ∧
      ∃ t ≤ (107 : Int), (⟨0, true⟩ : CacheValue Int) = ⟨t, true⟩ ∧
        107 ≤ t + (5 : Nat) + fromMinutes (60 : Nat) + (0 : Nat) + (2 : Nat) := by
  have hcalls : (run (step sampleManager fun t (_ : String) => t) ⟨∅, 0, []⟩ lookups).map
      (·.calls) = some [.returned "a" ⟨0, true⟩ 7, .returned "a" ⟨0, true⟩ 107] := by
    decide +kernel
  obtain ⟨s, hrun, hs⟩ := Option.map_eq_some_iff.1 hcalls
  have hmem : .returned "a" ⟨0, true⟩ 107 ∈ s.calls := by simp [hs]
  exact ⟨s, hrun, hmem, staleness_bounded keeps_sampleManager (by simp) 5 2 (fun _ => 60) hrun
    (by decide +kernel) hmem⟩

/-! ## What `Remove` does -/

section Remove

variable {σ K V : Type} {manager : CacheManager σ K V} {source : Int → K → V} {held : Held σ K V}
  {shift : Nat} {s s' : State σ K V}

/-- Of this key nothing is known from before `since`. -/
def sinceRule (source : Int → K → V) (removed : K) (since : Int) : Rule K V where
  entry key value t _ := key = removed → value = source t key ∧ since ≤ t
  fill key value t := key = removed → value = source t key ∧ since ≤ t
  answer key value t _ := key = removed → value = source t key ∧ since ≤ t
  result key value t _ := key = removed → value = source t key ∧ since ≤ t

theorem keeps_sinceRule (source : Int → K → V) (removed : K) {since now : Int} (h : since ≤ now) :
    (sinceRule source removed since).Keeps source now shift fun _ => True where
  acquire _ := ⟨fun _ => ⟨rfl, h⟩, fun _ => ⟨rfl, h⟩⟩
  set _ _ hfill := ⟨hfill, fun _ _ => hfill⟩
  hit _ _ hentry := hentry
  answered _ _ _ hanswer := hanswer

/-- The rule that says nothing but that there was such a time. -/
def trueRule (K V : Type) : Rule K V :=
  ⟨fun _ _ _ _ => True, fun _ _ _ => True, fun _ _ _ _ => True, fun _ _ _ _ => True⟩

theorem keeps_trueRule (source : Int → K → V) (now : Int) :
    (trueRule K V).Keeps source now shift fun _ => True :=
  ⟨fun _ => ⟨trivial, trivial⟩, fun _ _ _ => ⟨trivial, fun _ _ => trivial⟩, fun _ _ _ => trivial,
    fun _ _ _ _ => trivial⟩

/-- A call that is about to set has acquired before now, and one that is about to return has had its
answer before now. -/
theorem traced_trueRule (hm : manager.Keeps held shift) {store : σ} {now : Int}
    (hempty : ∀ key value expiry, ¬held store key value expiry) {actions : List (Action K)}
    (hrun : run (Caching.step manager source) ⟨store, now, []⟩ actions = some s) :
    Traced held (trueRule K V) (fun _ => False) s := by
  have hinit : Traced held (trueRule K V) (fun _ => False) (⟨store, now, []⟩ : State σ K V) :=
    ⟨fun h => absurd h (hempty _ _ _), by simp, by simp, by simp⟩
  refine run_invariant _ (fun s a s' h hs => ?_) hinit hrun
  exact h.step hm (keeps_trueRule source s.now) (fun _ _ _ _ => trivial) hs

/-- When no call holds an acquired value of the key, `Remove` is the end of what was known of it: in
every run that follows, whatever a call returns under the key was acquired after `Remove`, if the
call did not have its answer yet. -/
theorem fresh_after_remove (hm : manager.Keeps held shift) {store : σ} {now : Int}
    (hempty : ∀ key value expiry, ¬held store key value expiry) {earlier later : List (Action K)}
    (hearlier : run (Caching.step manager source) ⟨store, now, []⟩ earlier = some s) {removed : K}
    (hquiet : ∀ cacheTime value t, .set removed cacheTime value t ∉ s.calls)
    (hlater : run (Caching.step manager source) s (.remove removed :: later) = some s') {i : Nat}
    {cacheValue : CacheValue V} {t' : Int}
    (hreturned : s'.calls[i]? = some (.returned removed cacheValue t'))
    (hbefore : ∀ call, s.calls[i]? = some call → call.hasAnswer = false) :
    ∃ t, s.now ≤ t ∧ t ≤ t' ∧ cacheValue = ⟨source t removed, true⟩ := by
  obtain ⟨u, hu, hlater⟩ := run_cons_eq_some.1 hlater
  cases hu
  have hold := traced_trueRule hm hempty hearlier
  let before : Nat → Prop := fun i => ∃ call, s.calls[i]? = some call ∧ call.hasAnswer = true
  have hremoved : Traced held (sinceRule source removed s.now) before
      { s with store := manager.remove s.store removed } := by
    refine ⟨fun hheld => ?_, fun hi => ?_, fun hi => ?_, fun hi => .inl ⟨_, hi, rfl⟩⟩
    · exact ⟨s.now, le_rfl, fun hkey => absurd hkey (hm.remove hheld).1⟩
    · refine ⟨(hold.fill hi).1, ?_⟩
      rintro rfl
      exact absurd (List.mem_of_getElem? hi) (hquiet _ _ _)
    · exact ⟨(hold.answer hi).1, .inl ⟨_, hi, rfl⟩⟩
  have htraced : s.now ≤ s'.now ∧ Traced held (sinceRule source removed s.now) before s' := by
    refine run_invariant (fun s' => s.now ≤ s'.now ∧
      Traced held (sinceRule source removed s.now) before s') ?_ ⟨le_rfl, hremoved⟩ hlater
    rintro s₁ a s₂ ⟨hnow, h⟩ hs
    exact ⟨le_trans hnow (now_le_of_step hs),
      h.step hm (keeps_sinceRule source removed hnow) (fun _ _ _ _ => trivial) hs⟩
  obtain ⟨call, hi, hcall⟩ | ⟨t, ht, hvalue, hresult⟩ := htraced.2.result hreturned
  · rw [hbefore call hi] at hcall
    cases hcall
  · obtain ⟨hsource, hsince⟩ := hresult rfl
    refine ⟨t, hsince, ht, ?_⟩
    obtain ⟨value, hasValue⟩ := cacheValue
    cases hvalue
    cases hsource
    rfl

end Remove

theorem fresh_after_remove_lookups : ∃ s s',
    run (step sampleManager fun t (_ : String) => t) ⟨∅, 0, []⟩ lookups = some s ∧
      run (step sampleManager fun t (_ : String) => t) s
        [.remove "a", .begin "a" 60, .next 2, .next 2, .next 2, .next 2] = some s' ∧
      ∃ t, s.now ≤ t ∧ t ≤ 107 ∧ (⟨107, true⟩ : CacheValue Int) = ⟨t, true⟩ := by
  have hboth : (run (step sampleManager fun t (_ : String) => t) ⟨∅, 0, []⟩ lookups).bind
      (fun s => (run (step sampleManager fun t (_ : String) => t) s
        [.remove "a", .begin "a" 60, .next 2, .next 2, .next 2, .next 2]).map fun s' =>
          (s.calls, s'.calls[2]?)) =
      some ([.returned "a" ⟨0, true⟩ 7, .returned "a" ⟨0, true⟩ 107],
        some (.returned "a" ⟨107, true⟩ 107)) := by
    decide +kernel
  obtain ⟨s, hearlier, hs⟩ := Option.bind_eq_some_iff.1 hboth
  obtain ⟨s', hlater, hcalls⟩ := Option.map_eq_some_iff.1 hs
  obtain ⟨hbefore, hreturned⟩ := Prod.mk.inj hcalls
  exact ⟨s, s', hearlier, hlater, fresh_after_remove keeps_sampleManager (by simp) hearlier
    (by simp [hbefore]) hlater hreturned (by simp [hbefore])⟩

/-- A call that acquired before `Remove` sets after it, and the next one is answered from before. -/
example : (run (step sampleManager fun t (_ : String) => t) ⟨∅, 0, []⟩
      [.begin "a" 60, .next 0, .next 0, .tick 1, .remove "a", .next 0, .begin "a" 60, .next 1]).map
      (·.calls) =
    some [.answer "a" ⟨0, true⟩ 1, .answer "a" ⟨0, true⟩ 1] := by
  decide +kernel

end IFramework.Caching
