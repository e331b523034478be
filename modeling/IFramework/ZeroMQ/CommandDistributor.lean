import IFramework.Base
import IFramework.Theory.Total
import Mathlib.Algebra.Order.Group.Int

/-!
# The distributor of ZeroMQ commands

`CommandDistributor` takes commands from its end point and passes each to one of its consumers: a
command with a key goes to the consumer that has the other commands with the key, as long as there
are any, and every other one to a consumer with the smallest payload. A consumer notifies the
distributor of what it has handled, and that command is taken off the books.

This is the distributor as its file has it; the project file of the plugin no longer compiles it.
The log line that turns the message context into JSON is taken not to throw, although two properties
of the context, `Offset` and `SagaInfo`, do now.

The books are three: the payload of each consumer, the `LinearCommandConsumer` of each key, and the
state of each command. References to consumers and to objects of `LinearCommandConsumer` are
positions in the lists of these. `Booked` says how the books fit together, and what is done for a
command (`Booked.consumeMessageContext`) or a notification (`Booked.consumeHandledNotification`)
keeps them so.
-/

namespace IFramework.ZeroMQ

/-- A `MessageContext` of a command; its id is not null. -/
structure CommandContext where
  messageID : String
  key : Option String
  fromEndPoint : Option String
  deriving DecidableEq, Repr

/-- The key, when it is not blank. -/
def CommandContext.linearKey (c : CommandContext) : Option String :=
  if isNullOrWhiteSpace c.key then none else c.key

/-- A `CommandQueueConsumer`. -/
structure CommandQueueConsumer where
  payload : Int
  deriving DecidableEq, Repr

/-- A `LinearCommandConsumer`, with the position of its consumer. -/
structure LinearCommandConsumer where
  commandConsumer : Option Nat
  payload : Int
  linearKey : String
  deriving DecidableEq, Repr

/-- A `CommandState`. -/
structure CommandState where
  fromEndPoint : Option String
  commandConsumer : Option Nat
  linearCommandConsumer : Option Nat
  deriving DecidableEq, Repr

/-- A `CommandDistributor`. -/
structure CommandDistributor where
  receiveEndPoint : Option String
  linearCommandStates : AList fun _ : String => Nat
  commandStateQueue : AList fun _ : String => CommandState
  commandConsumers : List CommandQueueConsumer
  /-- The objects that `LinearCommandStates` and the states of commands refer to. -/
  linearCommandConsumers : List LinearCommandConsumer

/-- `CommandConsumers.OrderBy(c => c.Payload).FirstOrDefault()`. -/
def leastLoaded : List CommandQueueConsumer → Option Nat
  | [] => none
  | c :: cs =>
    match leastLoaded cs with
    | none => some 0
    | some i => if c.payload ≤ (cs[i]?.elim c.payload (·.payload)) then some 0 else some (i + 1)

theorem leastLoaded_eq_none {cs : List CommandQueueConsumer} : leastLoaded cs = none ↔ cs = [] := by
  cases cs with
  | nil => exact iff_of_true rfl rfl
  | cons c cs =>
    refine iff_of_false ?_ (List.cons_ne_nil c cs)
    unfold leastLoaded
    split
    · simp
    · split <;> simp

/-- It is one of the consumers with the smallest payload, and the first one of them. -/
theorem leastLoaded_least {cs : List CommandQueueConsumer} {i : Nat} (h : leastLoaded cs = some i) :
    ∃ c, cs[i]? = some c ∧ ∀ (j : Nat) c', cs[j]? = some c' →
      c.payload ≤ c'.payload ∧ (j < i → c.payload < c'.payload) := by
  induction cs generalizing i with
  | nil => cases h
  | cons c cs ih =>
    unfold leastLoaded at h
    split at h
    · next hnone =>
      cases h
      obtain rfl := leastLoaded_eq_none.1 hnone
      refine ⟨c, rfl, fun j c' hj => ?_⟩
      cases j with
      | zero => simp_all
      | succ j => simp at hj
    · next i' hsome =>
      obtain ⟨c₁, hc₁, hleast⟩ := ih hsome
      rw [hc₁, Option.elim_some] at h
      split at h
      · next hle =>
        cases h
        refine ⟨c, rfl, fun j c' hj => ?_⟩
        cases j with
        | zero => simp_all
        | succ j =>
          have hother := (hleast j c' hj).1
          exact ⟨hle.trans hother, by omega⟩
      · next hlt =>
        cases h
        refine ⟨c₁, hc₁, fun j c' hj => ?_⟩
        cases j with
        | zero =>
          obtain rfl : c = c' := by simpa using hj
          exact ⟨by omega, fun _ => by omega⟩
        | succ j =>
          obtain ⟨hle, hless⟩ := hleast j c' hj
          exact ⟨hle, fun hji => hless (by omega)⟩

/-- What one frame leads to: a command that is sent to a consumer, a notification that is sent to an
end point, and whether an exception is thrown. -/
structure Consumed where
  distributor : CommandDistributor
  pushed : Option (Nat × CommandContext)
  notified : Option (String × String)
  threw : Bool

namespace CommandDistributor

/-- A distributor that has been started with so many end points. -/
def start (receiveEndPoint : Option String) (targetEndPoints : Nat) : CommandDistributor :=
  ⟨receiveEndPoint, ∅, ∅, .replicate targetEndPoints ⟨0⟩, []⟩

variable (d : CommandDistributor)

/-- The consumer of a command, and the `LinearCommandConsumer` of its key. -/
def select : Option String → CommandDistributor × Option Nat × Option Nat
  | some linearKey =>
    match d.linearCommandStates.lookup linearKey with
    | some l => (d, some l, d.linearCommandConsumers[l]?.bind (·.commandConsumer))
    | none =>
      ({ d with
          linearCommandStates := d.linearCommandStates.insert linearKey d.linearCommandConsumers.length
          linearCommandConsumers := d.linearCommandConsumers ++ [⟨leastLoaded d.commandConsumers, 0, linearKey⟩] },
        some d.linearCommandConsumers.length, leastLoaded d.commandConsumers)
  | none => (d, none, leastLoaded d.commandConsumers)

/-- The payloads of a consumer and of a `LinearCommandConsumer` change. -/
def addPayload (i l : Option Nat) (n : Int) : CommandDistributor :=
  { d with
    commandConsumers := i.elim d.commandConsumers fun i =>
      d.commandConsumers.modify i fun c => ⟨c.payload + n⟩
    linearCommandConsumers := l.elim d.linearCommandConsumers fun l =>
      d.linearCommandConsumers.modify l fun x => { x with payload := x.payload + n } }

/-- The context that is sent on: the consumer is to notify the distributor. -/
def received (c : CommandContext) : CommandContext :=
  if isNullOrWhiteSpace d.receiveEndPoint then c else { c with fromEndPoint := d.receiveEndPoint }

/-- `ConsumeMessageContext`. -/
def consumeMessageContext (c : CommandContext) : Consumed :=
  let context := d.received c
  let (d, l, consumer) := d.select c.linearKey
  -- a `LinearCommandConsumer` without a consumer cannot push
  if l.isSome && consumer.isNone then ⟨d, none, none, true⟩
  else
    let d := d.addPayload consumer l 1
    let pushed := consumer.map fun i => (i, context)
    match d.commandStateQueue.lookup c.messageID with
    | some _ => ⟨d, pushed, none, true⟩
    | none =>
      ⟨{ d with
          commandStateQueue := d.commandStateQueue.insert c.messageID ⟨c.fromEndPoint, consumer, l⟩ },
        pushed, none, false⟩

/-- The part of `ConsumeHandledNotification` that takes a command off the books. -/
def commandHandled (messageID : String) (state : CommandState) : CommandDistributor :=
  let d :=
    match state.linearCommandConsumer with
    | some l =>
      let consumer := d.linearCommandConsumers[l]?.bind (·.commandConsumer)
      let d := d.addPayload consumer (some l) (-1)
      match d.linearCommandConsumers[l]? with
      | some x =>
        if x.payload = 0 then
          { d with linearCommandStates := d.linearCommandStates.erase x.linearKey }
        else d
      | none => d
    | none => d.addPayload state.commandConsumer none (-1)
  { d with commandStateQueue := d.commandStateQueue.erase messageID }

/-- `ConsumeHandledNotification`. -/
def consumeHandledNotification (messageID : String) : Consumed :=
  match d.commandStateQueue.lookup messageID with
  -- the end point of an unknown command cannot be read
  | none => ⟨d, none, none, true⟩
  | some state =>
    if state.linearCommandConsumer.isNone && state.commandConsumer.isNone then ⟨d, none, none, true⟩
    else
      ⟨d.commandHandled messageID state, none,
        if isNullOrWhiteSpace state.fromEndPoint then none
        else state.fromEndPoint.map fun endPoint => (endPoint, messageID), false⟩

/-! ## The books -/

/-- The commands that a consumer has. -/
def load (i : Nat) (_ : String) (state : CommandState) : Int :=
  if state.commandConsumer = some i then 1 else 0

/-- The commands that a `LinearCommandConsumer` has. -/
def linearLoad (l : Nat) (_ : String) (state : CommandState) : Int :=
  if state.linearCommandConsumer = some l then 1 else 0

theorem linearLoad_nonneg (l : Nat) (id : String) (state : CommandState) :
    0 ≤ linearLoad l id state := by
  unfold linearLoad
  split <;> omega

/-- The books of a distributor; `selected` is a key that a command is about to be pushed for. -/
structure Booked (d : CommandDistributor) (selected : Option String) : Prop where
  payload : ∀ i c, d.commandConsumers[i]? = some c →
    c.payload = d.commandStateQueue.total (load i)
  linearPayload : ∀ l x, d.linearCommandConsumers[l]? = some x →
    x.payload = d.commandStateQueue.total (linearLoad l)
  states : ∀ k l, d.linearCommandStates.lookup k = some l →
    ∃ x, d.linearCommandConsumers[l]? = some x ∧ x.linearKey = k ∧ (0 < x.payload ∨ selected = some k)
  staffed : ∀ (l : Nat) x, d.linearCommandConsumers[l]? = some x →
    (x.commandConsumer = none ↔ d.commandConsumers = [])
  pushed : ∀ id state, d.commandStateQueue.lookup id = some state →
    state.commandConsumer = none → state.linearCommandConsumer = none
  linear : ∀ id state, d.commandStateQueue.lookup id = some state →
    ∀ l, state.linearCommandConsumer = some l → ∃ x, d.linearCommandConsumers[l]? = some x ∧
      d.linearCommandStates.lookup x.linearKey = some l ∧ state.commandConsumer = x.commandConsumer

theorem booked_start (receiveEndPoint : Option String) (targetEndPoints : Nat) :
    (start receiveEndPoint targetEndPoints).Booked none where
  payload i c hc := by
    obtain ⟨hlt, rfl⟩ := List.getElem?_eq_some_iff.1 hc
    simp [start]
  linearPayload l x hx := by simp [start] at hx
  states k l hl := by simp [start] at hl
  staffed l x hx := by simp [start] at hx
  pushed id state hstate := by simp [start] at hstate
  linear id state hstate := by simp [start] at hstate

/-! ### What changes in the books -/

variable {d : CommandDistributor}

@[simp] theorem addPayload_commandStateQueue (d : CommandDistributor) (i l : Option Nat) (n : Int) :
    (d.addPayload i l n).commandStateQueue = d.commandStateQueue := rfl

theorem getElem?_commandConsumers_addPayload (d : CommandDistributor) (i l : Option Nat) (n : Int)
    (j : Nat) : (d.addPayload i l n).commandConsumers[j]? =
      d.commandConsumers[j]?.map fun c => ⟨c.payload + if i = some j then n else 0⟩ := by
  cases i with
  | none => simp [addPayload]
  | some i =>
    simp only [addPayload, Option.elim_some, List.getElem?_modify, Option.some.injEq]
    by_cases hij : i = j <;> simp [hij]

theorem getElem?_linearCommandConsumers_addPayload (d : CommandDistributor) (i l : Option Nat)
    (n : Int) (j : Nat) : (d.addPayload i l n).linearCommandConsumers[j]? =
      d.linearCommandConsumers[j]?.map fun x =>
        { x with payload := x.payload + if l = some j then n else 0 } := by
  cases l with
  | none => simp [addPayload]
  | some l =>
    simp only [addPayload, Option.elim_some, List.getElem?_modify, Option.some.injEq]
    by_cases hlj : l = j <;> simp [hlj]

theorem getElem?_addPayload_of_getElem? {l : Nat} {x : LinearCommandConsumer}
    (h : d.linearCommandConsumers[l]? = some x) (i l' : Option Nat) (n : Int) :
    (d.addPayload i l' n).linearCommandConsumers[l]? =
      some { x with payload := x.payload + if l' = some l then n else 0 } := by
  rw [getElem?_linearCommandConsumers_addPayload, h]
  rfl

theorem addPayload_commandConsumers_eq_nil (d : CommandDistributor) (i l : Option Nat) (n : Int) :
    (d.addPayload i l n).commandConsumers = [] ↔ d.commandConsumers = [] := by
  cases i <;> simp [addPayload]

theorem select_of_lookup {k : String} {l : Nat} (h : d.linearCommandStates.lookup k = some l) :
    d.select (some k) = (d, some l, d.linearCommandConsumers[l]?.bind (·.commandConsumer)) := by
  simp only [select, h]

theorem select_of_lookup_none {k : String} (h : d.linearCommandStates.lookup k = none) :
    d.select (some k) =
      ({ d with
          linearCommandStates := d.linearCommandStates.insert k d.linearCommandConsumers.length
          linearCommandConsumers :=
            d.linearCommandConsumers ++ [⟨leastLoaded d.commandConsumers, 0, k⟩] },
        some d.linearCommandConsumers.length, leastLoaded d.commandConsumers) := by
  simp only [select, h]

/-- What is selected for a key, and that it is on the books. -/
theorem Booked.select (h : d.Booked none) (linearKey : Option String) :
    (d.select linearKey).1.Booked linearKey ∧
      (d.select linearKey).1.commandStateQueue = d.commandStateQueue ∧
      (d.select linearKey).1.commandConsumers = d.commandConsumers ∧
      ((d.select linearKey).2.1 = none → linearKey = none) ∧
      ∀ l, (d.select linearKey).2.1 = some l → ∃ x,
        (d.select linearKey).1.linearCommandConsumers[l]? = some x ∧
        (d.select linearKey).1.linearCommandStates.lookup x.linearKey = some l ∧
        (d.select linearKey).2.2 = x.commandConsumer ∧ linearKey = some x.linearKey := by
  cases linearKey with
  | none => exact ⟨h, rfl, rfl, fun _ => rfl, fun l hl => by cases hl⟩
  | some k =>
    cases hk : d.linearCommandStates.lookup k with
    | some l =>
      rw [select_of_lookup hk]
      obtain ⟨x, hx, rfl, hpos⟩ := h.states k l hk
      refine ⟨{ h with states := ?_ }, rfl, rfl, (absurd · (Option.some_ne_none l)), fun l' hl' => ?_⟩
      · intro k' l' hl'
        obtain ⟨x', hx', hkey', hpos'⟩ := h.states k' l' hl'
        exact ⟨x', hx', hkey', hpos'.imp_right fun hnone => by cases hnone⟩
      · cases hl'
        exact ⟨x, hx, hk, by simp [hx], rfl⟩
    | none =>
      rw [select_of_lookup_none hk]
      have hlt : ∀ {l : Nat} {x}, d.linearCommandConsumers[l]? = some x →
          (d.linearCommandConsumers ++ [⟨leastLoaded d.commandConsumers, 0, k⟩])[l]? = some x := by
        intro l x hx
        rw [List.getElem?_append_left (List.getElem?_eq_some_iff.1 hx).1, hx]
      have hnew : (d.linearCommandConsumers ++ [⟨leastLoaded d.commandConsumers, 0, k⟩])[
          d.linearCommandConsumers.length]? = some ⟨leastLoaded d.commandConsumers, 0, k⟩ := by simp
      have hcases : ∀ {l : Nat} {x},
          (d.linearCommandConsumers ++ [⟨leastLoaded d.commandConsumers, 0, k⟩])[l]? = some x →
            d.linearCommandConsumers[l]? = some x ∨
              l = d.linearCommandConsumers.length ∧ x = ⟨leastLoaded d.commandConsumers, 0, k⟩ := by
        intro l x hx
        rcases Nat.lt_or_ge l d.linearCommandConsumers.length with hless | hge
        · rw [List.getElem?_append_left hless] at hx
          exact .inl hx
        · have hlast : l = d.linearCommandConsumers.length := by
            obtain ⟨hbound, -⟩ := List.getElem?_eq_some_iff.1 hx
            rw [List.length_append, List.length_singleton] at hbound
            omega
          subst hlast
          exact .inr ⟨rfl, Option.some.inj (hx.symm.trans hnew)⟩
      refine ⟨⟨h.payload, fun l x hx => ?_, fun k' l hl => ?_, fun l x hx => ?_,
        h.pushed, fun id state hstate l hl => ?_⟩, rfl, rfl, (absurd · (Option.some_ne_none _)),
        fun l' hl' => ?_⟩
      · rcases hcases hx with hx | ⟨rfl, rfl⟩
        · exact h.linearPayload l x hx
        · -- no command refers to the new object
          have hzero : d.commandStateQueue.total (linearLoad d.linearCommandConsumers.length) =
              d.commandStateQueue.total fun _ _ => (0 : Int) := by
            refine AList.total_congr fun id state hstate => ?_
            unfold linearLoad
            rw [if_neg]
            intro hl
            obtain ⟨x, hx, -⟩ := h.linear id state hstate _ hl
            have := (List.getElem?_eq_some_iff.1 hx).1
            omega
          exact (hzero.trans AList.total_zero).symm
      · by_cases hk' : k' = k
        · subst hk'
          obtain rfl : d.linearCommandConsumers.length = l := by simpa using hl
          exact ⟨_, hnew, rfl, .inr rfl⟩
        · rw [AList.lookup_insert_ne hk'] at hl
          obtain ⟨x, hx, hkey, hpos⟩ := h.states k' l hl
          exact ⟨x, hlt hx, hkey, hpos.imp_right fun hnone => by cases hnone⟩
      · rcases hcases hx with hx | ⟨-, rfl⟩
        · exact h.staffed l x hx
        · exact leastLoaded_eq_none
      · obtain ⟨x, hx, hlookup, hconsumer⟩ := h.linear id state hstate l hl
        refine ⟨x, hlt hx, ?_, hconsumer⟩
        have hne : x.linearKey ≠ k := by
          rintro rfl
          rw [hk] at hlookup
          cases hlookup
        rw [AList.lookup_insert_ne hne, hlookup]
      · cases hl'
        exact ⟨_, hnew, AList.lookup_insert _, rfl, rfl⟩

/-- The command that is pushed is added. -/
theorem Booked.push {linearKey : Option String} (h : d.Booked linearKey) {id : String}
    {state : CommandState} (hid : d.commandStateQueue.lookup id = none)
    (hpushed : state.commandConsumer = none → state.linearCommandConsumer = none)
    (hnone : state.linearCommandConsumer = none → linearKey = none)
    (hsome : ∀ l, state.linearCommandConsumer = some l → ∃ x,
      d.linearCommandConsumers[l]? = some x ∧ d.linearCommandStates.lookup x.linearKey = some l ∧
        state.commandConsumer = x.commandConsumer ∧ linearKey = some x.linearKey) :
    Booked { d.addPayload state.commandConsumer state.linearCommandConsumer 1 with
      commandStateQueue := d.commandStateQueue.insert id state } none where
  payload i c hc := by
    simp only at hc
    rw [getElem?_commandConsumers_addPayload] at hc
    obtain ⟨c', hc', rfl⟩ := Option.map_eq_some_iff.1 hc
    rw [AList.total_insert_of_lookup_none _ hid, h.payload i c' hc', add_comm]
    rfl
  linearPayload l x hx := by
    simp only at hx
    rw [getElem?_linearCommandConsumers_addPayload] at hx
    obtain ⟨x', hx', rfl⟩ := Option.map_eq_some_iff.1 hx
    rw [AList.total_insert_of_lookup_none _ hid, ← h.linearPayload l x' hx', add_comm]
    rfl
  states k l hl := by
    obtain ⟨x, hx, hkey, hpos⟩ := h.states k l hl
    have hx' := getElem?_addPayload_of_getElem? hx state.commandConsumer state.linearCommandConsumer 1
    refine ⟨_, hx', hkey, .inl ?_⟩
    have hnonneg : 0 ≤ x.payload := by
      rw [h.linearPayload l x hx]
      exact AList.total_nonneg fun id state _ => linearLoad_nonneg l id state
    rcases hpos with hpos | rfl
    · show 0 < x.payload + _
      split <;> omega
    · -- the key is the one that the command is pushed for
      cases hl' : state.linearCommandConsumer with
      | none => cases hnone hl'
      | some l' =>
        obtain ⟨x', -, hlookup, -, hkey'⟩ := hsome l' hl'
        obtain rfl : l' = l := by
          rw [← Option.some.inj hkey'] at hlookup
          exact Option.some.inj (hlookup.symm.trans hl)
        show 0 < x.payload + if some l' = some l' then 1 else 0
        rw [if_pos rfl]
        omega
  staffed l x hx := by
    simp only at hx
    rw [getElem?_linearCommandConsumers_addPayload] at hx
    obtain ⟨x', hx', rfl⟩ := Option.map_eq_some_iff.1 hx
    exact (h.staffed l x' hx').trans (addPayload_commandConsumers_eq_nil d _ none 1).symm
  pushed id' state' hstate' := by
    by_cases hid' : id' = id
    · subst hid'
      obtain rfl : state = state' := by simpa using hstate'
      exact hpushed
    · rw [AList.lookup_insert_ne hid'] at hstate'
      exact h.pushed id' state' hstate'
  linear id' state' hstate' l hl := by
    by_cases hid' : id' = id
    · subst hid'
      obtain rfl : state = state' := by simpa using hstate'
      obtain ⟨x, hx, hlookup, hconsumer, -⟩ := hsome l hl
      exact ⟨_, getElem?_addPayload_of_getElem? hx state.commandConsumer
        state.linearCommandConsumer 1, hlookup, hconsumer⟩
    · rw [AList.lookup_insert_ne hid'] at hstate'
      obtain ⟨x, hx, hlookup, hconsumer⟩ := h.linear id' state' hstate' l hl
      exact ⟨_, getElem?_addPayload_of_getElem? hx state.commandConsumer
        state.linearCommandConsumer 1, hlookup, hconsumer⟩

/-- What `ConsumeMessageContext` does: a `LinearCommandConsumer` without a consumer cannot push, a
command whose id is on the books is pushed before an exception is thrown, and every other one is
pushed and added. -/
theorem consumeMessageContext_cases (d : CommandDistributor) (c : CommandContext) :
    let d₁ := (d.select c.linearKey).1
    let l := (d.select c.linearKey).2.1
    let consumer := (d.select c.linearKey).2.2
    (l.isSome ∧ consumer = none ∧ d.consumeMessageContext c = ⟨d₁, none, none, true⟩) ∨
      ((consumer = none → l = none) ∧
        d.consumeMessageContext c =
          match d₁.commandStateQueue.lookup c.messageID with
          | some _ => ⟨d₁.addPayload consumer l 1, consumer.map fun i => (i, d.received c), none, true⟩
          | none =>
            ⟨{ d₁.addPayload consumer l 1 with
                commandStateQueue :=
                  d₁.commandStateQueue.insert c.messageID ⟨c.fromEndPoint, consumer, l⟩ },
              consumer.map fun i => (i, d.received c), none, false⟩) := by
  intro d₁ l consumer
  by_cases hpush : (l.isSome && consumer.isNone) = true
  · obtain ⟨hl, hconsumer⟩ := Bool.and_eq_true_iff.1 hpush
    refine .inl ⟨hl, Option.isNone_iff_eq_none.1 hconsumer, ?_⟩
    simp only [consumeMessageContext, d₁, l, consumer] at hpush ⊢
    rw [if_pos hpush]
  · refine .inr ⟨fun hconsumer => ?_, ?_⟩
    · by_contra hl
      exact hpush (by simp [hconsumer, Option.isSome_iff_ne_none.2 hl])
    · simp only [consumeMessageContext, d₁, l, consumer] at hpush ⊢
      rw [if_neg hpush]
      rfl

/-- A command is pushed unless it has a key and there is no consumer. -/
theorem Booked.select_eq_none (h : d.Booked none) {linearKey : Option String}
    (hl : (d.select linearKey).2.1.isSome) :
    (d.select linearKey).2.2 = none ↔ d.commandConsumers = [] := by
  obtain ⟨hbooked, -, hsame, -, hsome⟩ := h.select linearKey
  obtain ⟨l, hl⟩ := Option.isSome_iff_exists.1 hl
  obtain ⟨x, hx, -, hconsumer, -⟩ := hsome l hl
  rw [hconsumer, hbooked.staffed l x hx, hsame]

/-- No exception is thrown exactly if the command is not on the books, and there is a consumer or the
command has no key; the books are in order then. -/
theorem Booked.consumeMessageContext_threw (h : d.Booked none) (c : CommandContext) :
    (d.consumeMessageContext c).threw = false ↔
      d.commandStateQueue.lookup c.messageID = none ∧
        (c.linearKey ≠ none → d.commandConsumers ≠ []) := by
  obtain ⟨-, hqueue, -, hnone, hsome⟩ := h.select c.linearKey
  rcases consumeMessageContext_cases d c with ⟨hl, hconsumer, heq⟩ | ⟨hpush, heq⟩
  · rw [heq]
    refine iff_of_false (by simp) fun hboth => ?_
    obtain ⟨l, hl'⟩ := Option.isSome_iff_exists.1 hl
    obtain ⟨x, -, -, -, hx⟩ := hsome l hl'
    exact hboth.2 (by simp [hx]) ((h.select_eq_none hl).1 hconsumer)
  · rw [heq, hqueue]
    cases hlookup : d.commandStateQueue.lookup c.messageID with
    | some state => exact iff_of_false (by simp) fun hboth => by cases hboth.1
    | none =>
      refine iff_of_true rfl ⟨rfl, fun hkey hempty => ?_⟩
      cases hl : (d.select c.linearKey).2.1 with
      | none => exact hkey (hnone hl)
      | some l =>
        have hconsumer := (h.select_eq_none (Option.isSome_iff_exists.2 ⟨l, hl⟩)).2 hempty
        cases hl.symm.trans (hpush hconsumer)

theorem Booked.consumeMessageContext (h : d.Booked none) {c : CommandContext}
    (hthrew : (d.consumeMessageContext c).threw = false) :
    (d.consumeMessageContext c).distributor.Booked none := by
  obtain ⟨hbooked, hqueue, -, hnone, hsome⟩ := h.select c.linearKey
  have hid := ((h.consumeMessageContext_threw c).1 hthrew).1
  rw [← hqueue] at hid
  rcases consumeMessageContext_cases d c with ⟨-, -, heq⟩ | ⟨hpush, heq⟩
  · rw [heq] at hthrew
    cases hthrew
  · rw [heq, hid]
    exact hbooked.push hid hpush hnone hsome

/-! ### What stays as it is -/

/-- An object of `LinearCommandConsumer` keeps its key. -/
def KeepsKeys (d d' : CommandDistributor) : Prop :=
  ∀ (l : Nat) x, d.linearCommandConsumers[l]? = some x →
    ∃ x', d'.linearCommandConsumers[l]? = some x' ∧ x'.linearKey = x.linearKey

theorem KeepsKeys.addPayload {d' : CommandDistributor} (h : KeepsKeys d d') (i l : Option Nat)
    (n : Int) : KeepsKeys d (d'.addPayload i l n) := by
  intro l' x hx
  obtain ⟨x', hx', hkey⟩ := h l' x hx
  exact ⟨_, getElem?_addPayload_of_getElem? hx' i l n, hkey⟩

theorem keepsKeys_refl (d : CommandDistributor) : KeepsKeys d d := fun _ x hx => ⟨x, hx, rfl⟩

theorem keepsKeys_select (d : CommandDistributor) (linearKey : Option String) :
    KeepsKeys d (d.select linearKey).1 := by
  cases linearKey with
  | none => exact keepsKeys_refl d
  | some k =>
    cases hk : d.linearCommandStates.lookup k with
    | some l =>
      rw [select_of_lookup hk]
      exact keepsKeys_refl d
    | none =>
      rw [select_of_lookup_none hk]
      intro l x hx
      refine ⟨x, ?_, rfl⟩
      rw [← hx]
      exact List.getElem?_append_left (List.getElem?_eq_some_iff.1 hx).1

theorem keepsKeys_consumeMessageContext (d : CommandDistributor) (c : CommandContext) :
    KeepsKeys d (d.consumeMessageContext c).distributor := by
  have hselect := keepsKeys_select d c.linearKey
  rcases consumeMessageContext_cases d c with ⟨-, -, heq⟩ | ⟨-, heq⟩
  · rw [heq]
    exact hselect
  · rw [heq]
    split
    · exact hselect.addPayload none _ 1
    · exact hselect.addPayload none _ 1

theorem keepsKeys_commandHandled (d : CommandDistributor) (id : String) (state : CommandState) :
    KeepsKeys d (d.commandHandled id state) := by
  unfold CommandDistributor.commandHandled
  cases state.linearCommandConsumer with
  | none => exact (keepsKeys_refl d).addPayload none none (-1)
  | some l =>
    simp only
    split
    · split
      · exact (keepsKeys_refl d).addPayload none (some l) (-1)
      · exact (keepsKeys_refl d).addPayload none (some l) (-1)
    · exact (keepsKeys_refl d).addPayload none (some l) (-1)

theorem commandHandled_commandStateQueue (d : CommandDistributor) (id : String)
    (state : CommandState) :
    (d.commandHandled id state).commandStateQueue = d.commandStateQueue.erase id := by
  unfold CommandDistributor.commandHandled
  cases state.linearCommandConsumer with
  | none => rfl
  | some l =>
    simp only
    split
    · split <;> rfl
    · rfl

theorem received_messageID (d : CommandDistributor) (c : CommandContext) :
    (d.received c).messageID = c.messageID := by
  unfold received
  split <;> rfl

theorem received_linearKey (d : CommandDistributor) (c : CommandContext) :
    (d.received c).linearKey = c.linearKey := by
  unfold received
  split <;> rfl

/-! ### Notifications -/

/-- The books without a command, when the keys that are left are those that still have commands. -/
theorem Booked.erase (h : d.Booked none) {id : String} {state : CommandState}
    (hstate : d.commandStateQueue.lookup id = some state) {states : AList fun _ : String => Nat}
    (hsub : ∀ k l, states.lookup k = some l → d.linearCommandStates.lookup k = some l)
    (hkept : ∀ k l, states.lookup k = some l →
      0 < (d.commandStateQueue.erase id).total (linearLoad l))
    (hfound : ∀ k l, d.linearCommandStates.lookup k = some l →
      0 < (d.commandStateQueue.erase id).total (linearLoad l) → states.lookup k = some l) :
    Booked { d.addPayload state.commandConsumer state.linearCommandConsumer (-1) with
      linearCommandStates := states
      commandStateQueue := d.commandStateQueue.erase id } none := by
  have herase : ∀ f : String → CommandState → Int,
      (d.commandStateQueue.erase id).total f = d.commandStateQueue.total f - f id state := by
    intro f
    have := AList.total_erase_of_lookup f hstate
    omega
  have hold : ∀ {id' state'}, (d.commandStateQueue.erase id).lookup id' = some state' →
      d.commandStateQueue.lookup id' = some state' := by
    intro id' state' hstate'
    by_cases hid' : id' = id
    · rw [hid', AList.lookup_erase] at hstate'
      cases hstate'
    · rwa [AList.lookup_erase_ne hid'] at hstate'
  have hlinearPayload : ∀ l x,
      (d.addPayload state.commandConsumer state.linearCommandConsumer (-1)).linearCommandConsumers[l]? =
        some x → x.payload = (d.commandStateQueue.erase id).total (linearLoad l) := by
    intro l x hx
    rw [getElem?_linearCommandConsumers_addPayload] at hx
    obtain ⟨x', hx', rfl⟩ := Option.map_eq_some_iff.1 hx
    rw [herase, ← h.linearPayload l x' hx', linearLoad]
    simp only
    split <;> omega
  refine ⟨fun i c hc => ?_, hlinearPayload, fun k l hl => ?_, fun l x hx => ?_,
    fun id' state' hstate' => ?_, fun id' state' hstate' l hl => ?_⟩
  · simp only at hc
    rw [getElem?_commandConsumers_addPayload] at hc
    obtain ⟨c', hc', rfl⟩ := Option.map_eq_some_iff.1 hc
    rw [herase, ← h.payload i c' hc', load]
    simp only
    split <;> omega
  · obtain ⟨x, hx, hkey, -⟩ := h.states k l (hsub k l hl)
    have hx' := getElem?_addPayload_of_getElem? hx state.commandConsumer
      state.linearCommandConsumer (-1)
    exact ⟨_, hx', hkey, .inl ((hlinearPayload l _ hx').symm ▸ hkept k l hl)⟩
  · simp only at hx
    rw [getElem?_linearCommandConsumers_addPayload] at hx
    obtain ⟨x', hx', rfl⟩ := Option.map_eq_some_iff.1 hx
    exact (h.staffed l x' hx').trans (addPayload_commandConsumers_eq_nil d _ none (-1)).symm
  · exact h.pushed id' state' (hold hstate')
  · obtain ⟨x, hx, hlookup, hconsumer⟩ := h.linear id' state' (hold hstate') l hl
    refine ⟨_, getElem?_addPayload_of_getElem? hx state.commandConsumer
      state.linearCommandConsumer (-1), ?_, hconsumer⟩
    have hone := AList.le_total_of_lookup (linearLoad_nonneg l) hstate'
    rw [linearLoad, if_pos hl] at hone
    exact hfound _ l hlookup hone

theorem Booked.commandHandled (h : d.Booked none) {id : String} {state : CommandState}
    (hstate : d.commandStateQueue.lookup id = some state) :
    (d.commandHandled id state).Booked none := by
  -- the number of commands that a key still has
  have hpos : ∀ k l, d.linearCommandStates.lookup k = some l →
      0 < d.commandStateQueue.total (linearLoad l) := by
    intro k l hl
    obtain ⟨x, hx, -, hpos⟩ := h.states k l hl
    rw [← h.linearPayload l x hx]
    exact hpos.resolve_right fun hnone => by cases hnone
  have hless : ∀ l, (d.commandStateQueue.erase id).total (linearLoad l) =
      d.commandStateQueue.total (linearLoad l) - linearLoad l id state := by
    intro l
    have := AList.total_erase_of_lookup (linearLoad l) hstate
    omega
  unfold CommandDistributor.commandHandled
  cases hlinear : state.linearCommandConsumer with
  | none =>
    have hsame : ∀ l, linearLoad l id state = 0 := by
      intro l
      rw [linearLoad, hlinear, if_neg (by simp)]
    have hbooked := h.erase hstate (fun _ _ hl => hl)
      (fun k l hl => by rw [hless, hsame, sub_zero]; exact hpos k l hl) (fun _ _ hl _ => hl)
    rwa [hlinear] at hbooked
  | some l =>
    obtain ⟨x, hx, hlookup, hconsumer⟩ := h.linear id state hstate l hlinear
    have hx' := getElem?_addPayload_of_getElem? hx x.commandConsumer (some l) (-1)
    have hone : ∀ l', linearLoad l' id state = if l = l' then 1 else 0 := by
      intro l'
      simp [linearLoad, hlinear]
    have hleft : (d.commandStateQueue.erase id).total (linearLoad l) = x.payload - 1 := by
      rw [hless, hone, if_pos rfl, h.linearPayload l x hx]
    have hother : ∀ l', l' ≠ l → (d.commandStateQueue.erase id).total (linearLoad l') =
        d.commandStateQueue.total (linearLoad l') := by
      intro l' hne
      rw [hless, hone, if_neg hne.symm, sub_zero]
    have herase := @Booked.erase d h id state hstate
    rw [hlinear, hconsumer] at herase
    simp only [hx, hx', Option.bind_some, if_true]
    split
    · next hzero =>
      refine herase (fun k l' hl' => ?_) (fun k l' hl' => ?_) (fun k l' hl' hmore => ?_)
      · by_cases hk : k = x.linearKey
        · rw [hk, AList.lookup_erase] at hl'
          cases hl'
        · rwa [AList.lookup_erase_ne hk] at hl'
      · by_cases hk : k = x.linearKey
        · rw [hk, AList.lookup_erase] at hl'
          cases hl'
        · rw [AList.lookup_erase_ne hk] at hl'
          have hne : l' ≠ l := by
            rintro rfl
            obtain ⟨x', hx'', hkey, -⟩ := h.states k l' hl'
            obtain rfl := Option.some.inj (hx.symm.trans hx'')
            exact hk hkey.symm
          rw [hother l' hne]
          exact hpos k l' hl'
      · by_cases hk : k = x.linearKey
        · subst hk
          obtain rfl := Option.some.inj (hlookup.symm.trans hl')
          rw [hleft] at hmore
          omega
        · rwa [AList.lookup_erase_ne hk]
    · next hmore =>
      refine herase (fun _ _ hl' => hl') (fun k l' hl' => ?_) (fun _ _ hl' _ => hl')
      by_cases hl : l' = l
      · have hnonneg := hpos k l' hl'
        rw [hl, ← h.linearPayload l x hx] at hnonneg
        rw [hl, hleft]
        omega
      · rw [hother l' hl]
        exact hpos k l' hl'

end CommandDistributor

end IFramework.ZeroMQ
