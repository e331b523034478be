import IFramework.Event.EventSubscriber
import Mathlib.Data.List.Nodup

/-!
# A handler takes effect at most once on an event

The primary key admits one row for each event and handler. A transaction inserts one row, so the
transactions and the rows are in step, and a delivery sends for a handler only after it has inserted
the row. A delivery that loses the race for a row fails twice on the primary key and leaves its loop
without having committed or sent anything for that handler.
-/

namespace IFramework.EventSubscribers

section Store

variable {W C M P R : Type} (subscriptionName : String)

/-- The primary key of the row of a handler. -/
def rowKey (eventId handlerType : String) : String × String :=
  (eventId, handlerSubscription subscriptionName handlerType)

/-- The keys of the rows, each with the delivery that has inserted it. -/
def Database.owners (db : Database W) : List (Nat × (String × String)) :=
  db.handledEvents.map fun row => (row.1, row.2.key)

/-- The row that a transaction has inserted. -/
def Transaction.owner (t : Transaction W) : Nat × (String × String) :=
  (t.delivery, rowKey subscriptionName t.eventId t.handlerType)

/-- The row that a call that sends belongs to. -/
def Sent.owner (sent : Sent C P R) : Nat × (String × String) :=
  (sent.delivery, rowKey subscriptionName sent.eventId sent.handlerType)

/-- Whether a call goes to the `CommandBus`. -/
def Outgoing.isCommands : Outgoing C P R → Bool
  | .commands _ => true
  | .messages _ => false

/-- A call that sends is known by its row and by where it goes. -/
def Sent.call (sent : Sent C P R) : (String × String) × Bool :=
  ((sent.owner subscriptionName).2, sent.outgoing.isCommands)

variable {subscriptionName}

theorem saveChanges_eq_some {db db' : Database W} {d : Nat} {eventId handlerType : String}
    {context : DbContext W} {e : HandledEvent} (he : context.handledEvents = [e])
    (hsaved : db.saveChanges d eventId handlerType context = some db') :
    e.key ∉ db.owners.map Prod.snd ∧
      db'.handledEvents = db.handledEvents ++ [(d, e)] ∧
      db'.transactions = db.transactions ++ [⟨d, eventId, handlerType, context.writes⟩] := by
  simp only [Database.saveChanges, he] at hsaved
  split at hsaved
  next hnodup =>
    cases hsaved
    have hfree := (List.nodup_append.1 hnodup).2.2
    refine ⟨?_, rfl, rfl⟩
    intro hmem
    refine hfree e.key ?_ e.key (by simp) rfl
    simpa [Database.owners] using hmem
  · cases hsaved

theorem saveChanges_transactions {db db' : Database W} {d : Nat} {eventId handlerType : String}
    {context : DbContext W} (hsaved : db.saveChanges d eventId handlerType context = some db') :
    db'.transactions = db.transactions ++ [⟨d, eventId, handlerType, context.writes⟩] := by
  simp only [Database.saveChanges] at hsaved
  split at hsaved
  · cases hsaved
    rfl
  · cases hsaved

theorem mem_owners_of_saveChanges_eq_none {db : Database W} {d : Nat}
    {eventId handlerType : String} {context : DbContext W} {e : HandledEvent}
    (hunique : (db.owners.map Prod.snd).Nodup) (he : context.handledEvents = [e])
    (hrefused : db.saveChanges d eventId handlerType context = none) :
    e.key ∈ db.owners.map Prod.snd := by
  simp only [Database.saveChanges, he] at hrefused
  split at hrefused
  · cases hrefused
  next hnodup =>
    by_contra hfree
    apply hnodup
    have hkeys : db.handledEvents.map (fun row => row.2.key) = db.owners.map Prod.snd := by
      simp [Database.owners]
    rw [hkeys, List.map_singleton]
    exact List.nodup_append.2 ⟨hunique, List.nodup_singleton _, by
      rintro key hkey key' hkey' rfl
      rw [List.mem_singleton.1 hkey'] at hkey
      exact hfree hkey⟩

/-- An event has been handled when there is a row under its key. -/
theorem hasEventHandledAsync_iff {db : Database W} {eventId handlerType : String} :
    hasEventHandledAsync db eventId (handlerSubscription subscriptionName handlerType) = true ↔
      rowKey subscriptionName eventId handlerType ∈ db.owners.map Prod.snd := by
  simp [hasEventHandledAsync, Database.owners, rowKey, HandledEvent.key]

end Store

/-! ## The invariant -/

section Invariant

variable {W C M P R : Type} {subscriptionName : String} {getHandlerTypes : M → List String}
  {violation : String} {s s' : State W C M P R} {d : Nat}

/-- What holds of a delivery at its point: it has tracked no row before it saves, it owns the row
when it sends, and it has not sent before. -/
structure DeliveryOf (subscriptionName : String) (db : Database W) (sent : List (Sent C P R))
    (d : Nat) (delivery : Delivery W C M P R) : Prop where
  tracked : delivery.point = .check ∨ delivery.point = .handle ∨
    (∃ commands bus, delivery.point = .save commands bus) → delivery.tracked.handledEvents = []
  send : ∀ commands messages h hs, delivery.point = .send commands messages →
    delivery.handlerTypes = h :: hs →
    (d, rowKey subscriptionName delivery.context.messageId h) ∈ db.owners ∧
      ∀ e ∈ sent, (e.owner subscriptionName).2 ≠
        rowKey subscriptionName delivery.context.messageId h
  publish : ∀ messages h hs, delivery.point = .publish messages →
    delivery.handlerTypes = h :: hs →
    (d, rowKey subscriptionName delivery.context.messageId h) ∈ db.owners ∧
      ∀ e ∈ sent, e.call subscriptionName ≠
        (rowKey subscriptionName delivery.context.messageId h, false)

/-- The rows, the transactions and the calls that send belong together. -/
structure Consistent (subscriptionName : String) (s : State W C M P R) : Prop where
  unique : (s.database.owners.map Prod.snd).Nodup
  transactions : s.database.transactions.map (Transaction.owner subscriptionName) =
    s.database.owners
  effects : ∀ t ∈ s.database.transactions, t.writes ≠ [] →
    (t.delivery, ⟨t.eventId, handlerSubscription subscriptionName t.handlerType, false⟩) ∈
      s.database.handledEvents
  sent : ∀ e ∈ s.sent, e.owner subscriptionName ∈ s.database.owners
  once : (s.sent.map (Sent.call subscriptionName)).Nodup
  deliveries : ∀ d, DeliveryOf subscriptionName s.database s.sent d (s.deliveries d)
  made : ∀ owner ∈ s.database.owners, owner.1 < s.deliveryCount
  absent : ∀ d, s.deliveryCount ≤ d → s.deliveries d = .none

/-- Delivery `d` at a point that says nothing of rows. -/
theorem DeliveryOf.of_point {db : Database W} {sent : List (Sent C P R)}
    {delivery : Delivery W C M P R}
    (htracked : delivery.point = .check ∨ delivery.point = .handle ∨
      (∃ commands bus, delivery.point = .save commands bus) →
        delivery.tracked.handledEvents = [])
    (hsend : ∀ commands messages, delivery.point ≠ .send commands messages)
    (hpublish : ∀ messages, delivery.point ≠ .publish messages) :
    DeliveryOf subscriptionName db sent d delivery where
  tracked := htracked
  send := fun _ _ _ _ hpoint => absurd hpoint (hsend _ _)
  publish := fun _ _ _ hpoint => absurd hpoint (hpublish _)

theorem DeliveryOf.loop {db : Database W} {sent : List (Sent C P R)}
    (delivery : Delivery W C M P R) (handlerTypes : List String) :
    DeliveryOf subscriptionName db sent d (delivery.loop handlerTypes) := by
  apply DeliveryOf.of_point
  · intro _
    rfl
  · intro commands messages
    unfold Delivery.loop
    split <;> simp
  · intro messages
    unfold Delivery.loop
    split <;> simp

theorem Consistent.init : Consistent subscriptionName (.init : State W C M P R) where
  unique := List.nodup_nil
  transactions := rfl
  effects := fun t ht => by simp [State.init] at ht
  sent := fun e he => by simp [State.init] at he
  once := List.nodup_nil
  deliveries := fun d => .of_point (fun _ => rfl) (by simp [State.init, Delivery.none])
    (by simp [State.init, Delivery.none])
  made := fun owner howner => by simp [State.init, Database.owners] at howner
  absent := fun d _ => rfl

theorem Consistent.lt_deliveryCount (h : Consistent subscriptionName s)
    (hpoint : (s.deliveries d).point ≠ .ended) : d < s.deliveryCount := by
  by_contra hle
  have habsent := h.absent d (Nat.le_of_not_lt hle)
  exact hpoint (by rw [habsent]; rfl)

/-- A delivery goes on without a transaction or a call that sends. -/
theorem Consistent.setDelivery (h : Consistent subscriptionName s)
    (hpoint : (s.deliveries d).point ≠ .ended) {delivery : Delivery W C M P R}
    (hdelivery : DeliveryOf subscriptionName s.database s.sent d delivery) :
    Consistent subscriptionName (s.setDelivery d delivery) := by
  have hlt := h.lt_deliveryCount hpoint
  refine ⟨h.unique, h.transactions, h.effects, h.sent, h.once, ?_, h.made, ?_⟩
  · intro d'
    by_cases heq : d' = d
    · subst heq
      simpa using hdelivery
    · simpa [heq] using h.deliveries d'
  · intro d' hd'
    have heq : d' ≠ d := by
      rintro rfl
      exact absurd hlt (Nat.not_lt.2 hd')
    simpa [heq] using h.absent d' hd'

theorem Consistent.owner_unique (h : Consistent subscriptionName s) {d' : Nat}
    {key : String × String} (hd : (d, key) ∈ s.database.owners)
    (hd' : (d', key) ∈ s.database.owners) : d = d' :=
  congrArg Prod.fst (List.inj_on_of_nodup_map h.unique hd hd' rfl)

/-- A delivery commits a transaction with the row of a handler. -/
theorem Consistent.commit (h : Consistent subscriptionName s)
    (hpoint : (s.deliveries d).point ≠ .ended) {database : Database W} {context : DbContext W}
    {handlerType : String} {failed : Bool}
    (hcontext : context.handledEvents = [⟨(s.deliveries d).context.messageId,
      handlerSubscription subscriptionName handlerType, failed⟩])
    (hfailed : context.writes ≠ [] → failed = false)
    (hsaved : s.database.saveChanges d (s.deliveries d).context.messageId handlerType context =
      some database) {delivery : Delivery W C M P R}
    (hdelivery : (d, rowKey subscriptionName (s.deliveries d).context.messageId handlerType) ∈
        database.owners →
      (∀ e ∈ s.sent, (e.owner subscriptionName).2 ≠
        rowKey subscriptionName (s.deliveries d).context.messageId handlerType) →
      DeliveryOf subscriptionName database s.sent d delivery) :
    Consistent subscriptionName ({ s with database := database }.setDelivery d delivery) := by
  obtain ⟨hfree, hrows, htransactions⟩ := saveChanges_eq_some hcontext hsaved
  have howners : database.owners = s.database.owners ++
      [(d, rowKey subscriptionName (s.deliveries d).context.messageId handlerType)] := by
    simp [Database.owners, hrows, HandledEvent.key, rowKey]
  have hlt := h.lt_deliveryCount hpoint
  have hmono : ∀ owner ∈ s.database.owners, owner ∈ database.owners := by
    intro owner howner
    rw [howners]
    exact List.mem_append_left _ howner
  refine ⟨?_, ?_, ?_, fun e he => hmono _ (h.sent e he), h.once, ?_, ?_, ?_⟩
  · show (database.owners.map Prod.snd).Nodup
    rw [howners, List.map_append, List.nodup_append]
    refine ⟨h.unique, List.nodup_singleton _, ?_⟩
    rintro key hkey key' hkey' rfl
    rw [List.map_singleton, List.mem_singleton] at hkey'
    rw [hkey'] at hkey
    exact hfree hkey
  · show database.transactions.map _ = database.owners
    rw [htransactions, howners, List.map_append, h.transactions]
    rfl
  · intro t ht hwrites
    show _ ∈ database.handledEvents
    rw [hrows]
    rcases List.mem_append.1 (htransactions ▸ ht) with ht | ht
    · exact List.mem_append_left _ (h.effects t ht hwrites)
    · rw [List.mem_singleton] at ht
      subst ht
      simp [hfailed hwrites]
  · intro d'
    by_cases heq : d' = d
    · subst heq
      have hmine := hdelivery (by simp [howners]) (fun e he hkey => by
        have hmem := List.mem_map_of_mem (f := Prod.snd) (h.sent e he)
        exact hfree (by simpa [hkey, rowKey, HandledEvent.key] using hmem))
      simpa using hmine
    · have hother := h.deliveries d'
      simp only [Function.update_of_ne heq]
      exact ⟨hother.tracked,
        fun cs ms h' hs hp ht => (hother.send cs ms h' hs hp ht).imp_left (hmono _),
        fun ms h' hs hp ht => (hother.publish ms h' hs hp ht).imp_left (hmono _)⟩
  · intro owner howner
    rcases List.mem_append.1 (howners ▸ howner) with howner | howner
    · exact h.made owner howner
    · rw [List.mem_singleton.1 howner]
      exact hlt
  · intro d' hd'
    have heq : d' ≠ d := by
      rintro rfl
      exact absurd hlt (Nat.not_lt.2 hd')
    simpa [heq] using h.absent d' hd'

@[simp] theorem database_send (s : State W C M P R) (sent : Sent C P R) :
    (s.send sent).database = s.database := rfl

@[simp] theorem deliveries_send (s : State W C M P R) (sent : Sent C P R) :
    (s.send sent).deliveries = s.deliveries := rfl

theorem mem_sent_send {sent e : Sent C P R} (he : e ∈ (s.send sent).sent) :
    e ∈ s.sent ∨ e = sent := by
  simp only [State.send] at he
  split at he
  · simpa using he
  · exact .inl he

theorem Consistent.send (h : Consistent subscriptionName s)
    (hpoint : (s.deliveries d).point ≠ .ended) (sent : Sent C P R) (hsender : sent.delivery = d)
    (howner : sent.owner subscriptionName ∈ s.database.owners)
    (hnew : ∀ e ∈ s.sent, e.call subscriptionName ≠ sent.call subscriptionName)
    {delivery : Delivery W C M P R}
    (hdelivery : DeliveryOf subscriptionName s.database (s.send sent).sent d delivery) :
    Consistent subscriptionName ((s.send sent).setDelivery d delivery) := by
  have hlt := h.lt_deliveryCount hpoint
  refine ⟨h.unique, h.transactions, h.effects, ?_, ?_, ?_, h.made, ?_⟩
  · intro e he
    rcases mem_sent_send he with he | rfl
    · exact h.sent e he
    · exact howner
  · show ((s.send sent).sent.map _).Nodup
    simp only [State.send]
    split
    · rw [List.map_append, List.nodup_append]
      refine ⟨h.once, List.nodup_singleton _, ?_⟩
      rintro call hcall call' hcall' rfl
      obtain ⟨e, he, rfl⟩ := List.mem_map.1 hcall
      rw [List.map_singleton, List.mem_singleton] at hcall'
      exact hnew e he hcall'
    · exact h.once
  · intro d'
    by_cases heq : d' = d
    · subst heq
      simpa using hdelivery
    · -- another delivery that is about to send owns another row
      have hother := h.deliveries d'
      have hkey : ∀ key, (d', key) ∈ s.database.owners → (sent.owner subscriptionName).2 ≠ key := by
        rintro key howns rfl
        exact heq ((h.owner_unique howns howner).trans hsender)
      simp only [Function.update_of_ne heq]
      refine ⟨hother.tracked, ?_, ?_⟩
      · intro cs ms h' hs hp ht
        obtain ⟨howns, hunsent⟩ := hother.send cs ms h' hs hp ht
        refine ⟨howns, fun e he => ?_⟩
        rcases mem_sent_send he with he | rfl
        · exact hunsent e he
        · exact hkey _ howns
      · intro ms h' hs hp ht
        obtain ⟨howns, hunsent⟩ := hother.publish ms h' hs hp ht
        refine ⟨howns, fun e he => ?_⟩
        rcases mem_sent_send he with he | rfl
        · exact hunsent e he
        · exact fun hcall => hkey _ howns (congrArg Prod.fst hcall)
  · intro d' hd'
    have heq : d' ≠ d := by
      rintro rfl
      exact absurd hlt (Nat.not_lt.2 hd')
    simpa [heq] using h.absent d' hd'

theorem Consistent.deliver (h : Consistent subscriptionName s) {delivery : Delivery W C M P R}
    (hdelivery : DeliveryOf subscriptionName s.database s.sent s.deliveryCount delivery) :
    Consistent subscriptionName { s.setDelivery s.deliveryCount delivery with
      deliveryCount := s.deliveryCount + 1 } := by
  refine ⟨h.unique, h.transactions, h.effects, h.sent, h.once, ?_, ?_, ?_⟩
  · intro d'
    by_cases heq : d' = s.deliveryCount
    · subst heq
      simpa using hdelivery
    · simpa [heq] using h.deliveries d'
  · intro owner howner
    exact Nat.lt_succ_of_lt (h.made owner howner)
  · intro d' hd'
    have hlt : s.deliveryCount < d' := hd'
    simpa [Nat.ne_of_gt hlt] using h.absent d' (Nat.le_of_lt hlt)

theorem Consistent.crash (h : Consistent subscriptionName s) (subscriber : Nat) :
    Consistent subscriptionName (s.crash subscriber) := by
  refine ⟨h.unique, h.transactions, h.effects, h.sent, h.once, ?_, h.made, ?_⟩
  · intro d'
    simp only [State.crash]
    split
    · exact .of_point (by simp) (by simp) (by simp)
    · exact h.deliveries d'
  · intro d' hd'
    have habsent := h.absent d' hd'
    simp only [State.crash, habsent]
    split <;> rfl

theorem Consistent.step (h : Consistent subscriptionName s) {a : Action W C M P R}
    (hstep : EventSubscribers.step subscriptionName getHandlerTypes violation s a = some s') :
    Consistent subscriptionName s' := by
  cases Transition.of_step hstep with
  | deliver subscriber context => exact h.deliver (.loop _ _)
  | skip hpoint htypes hhandled => exact h.setDelivery (by simp [hpoint]) (.loop _ _)
  | @begin d h' hs hpoint htypes =>
    have htracked := (h.deliveries d).tracked (.inl hpoint)
    exact h.setDelivery (by simp [hpoint]) (.of_point (fun _ => htracked) (by simp) (by simp))
  | checkFails hpoint =>
    exact h.setDelivery (by simp [hpoint]) (.of_point (by simp) (by simp) (by simp))
  | @handle d run hpoint =>
    have htracked := (h.deliveries d).tracked (.inr (.inl hpoint))
    refine h.setDelivery (by simp [hpoint]) (.of_point (fun _ => htracked) ?_ ?_)
    · cases run.thrown <;> simp
    · cases run.thrown <;> simp
  | @save d commands bus h' hs database hpoint htypes hsaved =>
    have htracked := (h.deliveries d).tracked (.inr (.inr ⟨commands, bus, hpoint⟩))
    refine h.commit (by simp [hpoint]) (by simp [handleEventAsync, htracked]) (fun _ => rfl)
      hsaved ?_
    intro howns hunsent
    refine ⟨by simp, ?_, by simp⟩
    intro cs ms h'' hs' _ htypes'
    obtain ⟨rfl, rfl⟩ := List.cons.inj (htypes.symm.trans htypes')
    exact ⟨howns, hunsent⟩
  | saveFails haction hpoint =>
    exact h.setDelivery (by simp [hpoint]) (.of_point (by simp) (by simp) (by simp))
  | @send d commands messages h' hs hpoint htypes =>
    obtain ⟨howns, hunsent⟩ := (h.deliveries d).send _ _ _ _ hpoint htypes
    refine h.send (by simp [hpoint]) ⟨d, _, h', .commands commands⟩ rfl howns
      (fun e he hcall => hunsent e he (congrArg Prod.fst hcall)) ?_
    refine ⟨by simp, by simp, ?_⟩
    intro ms h'' hs' _ htypes'
    obtain ⟨rfl, rfl⟩ := List.cons.inj (htypes.symm.trans htypes')
    refine ⟨howns, fun e he => ?_⟩
    -- of the row's own calls only the one to the `CommandBus` has been made
    rcases mem_sent_send he with he | rfl
    · exact fun hcall => hunsent e he (congrArg Prod.fst hcall)
    · simp [Sent.call, Outgoing.isCommands]
  | @publish d messages h' hs hpoint htypes =>
    obtain ⟨howns, hunsent⟩ := (h.deliveries d).publish _ _ _ hpoint htypes
    exact h.send (by simp [hpoint]) ⟨d, _, h', .messages messages⟩ rfl howns hunsent (.loop _ _)
  | @fail d e bus h' hs database hpoint htypes hsaved =>
    refine h.commit (by simp [hpoint]) rfl (by simp [saveFailHandledEventAsync, DbContext.empty])
      hsaved ?_
    intro howns hunsent
    refine ⟨by simp, by simp, ?_⟩
    intro ms h'' hs' _ htypes'
    obtain ⟨rfl, rfl⟩ := List.cons.inj (htypes.symm.trans htypes')
    exact ⟨howns, fun e he hcall => hunsent e he (congrArg Prod.fst hcall)⟩
  | leave hpoint htypes hviolation =>
    exact h.setDelivery (by simp [hpoint]) (.of_point (by simp) (by simp) (by simp))
  | failFails hpoint =>
    exact h.setDelivery (by simp [hpoint]) (.of_point (by simp) (by simp) (by simp))
  | commitOffset hpoint =>
    exact h.setDelivery (by simp [hpoint]) (.of_point (by simp) (by simp) (by simp))
  | crash subscriber => exact h.crash subscriber

end Invariant

/-! ## Every run -/

section Runs

variable {W C M P R : Type} {subscriptionName : String} {getHandlerTypes : M → List String}
  {violation : String} {as : List (Action W C M P R)} {s s' : State W C M P R}

theorem consistent_of_run
    (hrun : Machine.run (step subscriptionName getHandlerTypes violation) .init as = some s) :
    Consistent subscriptionName s :=
  Machine.run_invariant (Consistent subscriptionName) (fun _ _ _ h hstep => h.step hstep) .init hrun

theorem transactions_step {a : Action W C M P R}
    (hstep : step subscriptionName getHandlerTypes violation s a = some s') :
    ∃ ts, s'.database.transactions = s.database.transactions ++ ts := by
  cases Transition.of_step hstep with
  | save hpoint htypes hsaved => exact ⟨_, saveChanges_transactions hsaved⟩
  | fail hpoint htypes hsaved => exact ⟨_, saveChanges_transactions hsaved⟩
  | _ => exact ⟨[], (List.append_nil _).symm⟩

theorem transactions_run
    (hrun : Machine.run (step subscriptionName getHandlerTypes violation) s as = some s') :
    ∃ ts, s'.database.transactions = s.database.transactions ++ ts := by
  refine Machine.run_invariant
    (fun t => ∃ ts, t.database.transactions = s.database.transactions ++ ts) ?_
    ⟨[], (List.append_nil _).symm⟩ hrun
  rintro t a t' ⟨ts, hts⟩ hstep
  obtain ⟨us, hus⟩ := transactions_step hstep
  exact ⟨ts ++ us, by rw [hus, hts, List.append_assoc]⟩

/-- In a list without repetitions of a key, a filter that fixes the key keeps one element. -/
theorem length_filter_le_one {α β : Type} [DecidableEq β] {l : List α} {key : α → β}
    (hnodup : (l.map key).Nodup) {p : α → Bool} {k : β} (hp : ∀ x, p x = true → key x = k) :
    (l.filter p).length ≤ 1 := by
  have hcount := List.nodup_iff_count_le_one.1 hnodup k
  rw [List.count, List.countP_map] at hcount
  calc (l.filter p).length = l.countP p := List.countP_eq_length_filter.symm
    _ ≤ l.countP ((fun b => b == k) ∘ key) :=
        List.countP_mono_left (fun x _ hx => by simp [hp x hx])
    _ ≤ 1 := hcount

/-- An event and a handler have one row, one transaction and one call to each sender at most. -/
theorem Consistent.at_most_one (h : Consistent subscriptionName s) (eventId handlerType : String) :
    (s.database.handledEvents.filter fun row => row.2.id = eventId ∧
        row.2.subscriptionName = handlerSubscription subscriptionName handlerType).length ≤ 1 ∧
      (s.database.transactions.filter fun t =>
        t.eventId = eventId ∧ t.handlerType = handlerType).length ≤ 1 ∧
      ∀ isCommands, (s.sent.filter fun e => e.eventId = eventId ∧ e.handlerType = handlerType ∧
        e.outgoing.isCommands = isCommands).length ≤ 1 := by
  have hrows : (s.database.handledEvents.map fun row => row.2.key).Nodup := by
    simpa [Database.owners, Function.comp_def] using h.unique
  have htransactions : (s.database.transactions.map fun t =>
      (t.owner subscriptionName).2).Nodup := by
    have hunique := h.unique
    rw [← h.transactions, List.map_map] at hunique
    exact hunique
  refine ⟨?_, ?_, fun isCommands => ?_⟩
  · refine length_filter_le_one hrows (k := rowKey subscriptionName eventId handlerType) ?_
    intro row hrow
    simpa [HandledEvent.key, rowKey] using hrow
  · refine length_filter_le_one htransactions
      (k := rowKey subscriptionName eventId handlerType) ?_
    intro t ht
    obtain ⟨rfl, rfl⟩ : t.eventId = eventId ∧ t.handlerType = handlerType := by simpa using ht
    rfl
  · refine length_filter_le_one h.once
      (k := (rowKey subscriptionName eventId handlerType, isCommands)) ?_
    intro e he
    obtain ⟨rfl, rfl, rfl⟩ : e.eventId = eventId ∧ e.handlerType = handlerType ∧
      e.outgoing.isCommands = isCommands := by simpa using he
    rfl

theorem Consistent.row_of_transaction (h : Consistent subscriptionName s) {t : Transaction W}
    (ht : t ∈ s.database.transactions) :
    ∃ row ∈ s.database.handledEvents, row.1 = t.delivery ∧ row.2.id = t.eventId ∧
      row.2.subscriptionName = handlerSubscription subscriptionName t.handlerType ∧
      (t.writes ≠ [] → row.2.failed = false) := by
  by_cases hwrites : t.writes = []
  · have howner : t.owner subscriptionName ∈ s.database.owners := by
      rw [← h.transactions]
      exact List.mem_map_of_mem ht
    obtain ⟨row, hrow, heq⟩ := List.mem_map.1 howner
    obtain ⟨hdelivery, hkey⟩ := Prod.ext_iff.1 heq
    obtain ⟨hid, hname⟩ := Prod.ext_iff.1 hkey
    exact ⟨row, hrow, hdelivery, hid, hname, fun hne => absurd hwrites hne⟩
  · exact ⟨_, h.effects t ht hwrites, rfl, rfl, rfl, fun _ => rfl⟩

theorem Consistent.owners_append (h : Consistent subscriptionName s)
    (h' : Consistent subscriptionName s') {ts : List (Transaction W)}
    (hts : s'.database.transactions = s.database.transactions ++ ts) :
    s'.database.owners = s.database.owners ++ ts.map (Transaction.owner subscriptionName) := by
  rw [← h'.transactions, hts, List.map_append, h.transactions]

/-- Behind a row, no transaction of its handler is committed: its key would be that of the row. -/
theorem Consistent.no_transaction_after (h : Consistent subscriptionName s)
    (h' : Consistent subscriptionName s') {ts : List (Transaction W)}
    (hts : s'.database.transactions = s.database.transactions ++ ts) {eventId handlerType : String}
    {d : Nat} (howner : (d, rowKey subscriptionName eventId handlerType) ∈ s.database.owners) :
    ts.filter (fun t => t.eventId = eventId ∧ t.handlerType = handlerType) = [] := by
  have hdisjoint := h'.unique
  rw [h.owners_append h' hts, List.map_append, List.nodup_append] at hdisjoint
  rw [List.filter_eq_nil_iff]
  intro t ht hsame
  obtain ⟨rfl, rfl⟩ : t.eventId = eventId ∧ t.handlerType = handlerType := by simpa using hsame
  refine hdisjoint.2.2 _ (List.mem_map_of_mem howner) _ ?_ rfl
  rw [List.map_map]
  exact List.mem_map.2 ⟨t, ht, rfl⟩

/-- At most once. In every interleaving of any deliveries to any subscribers of one subscription
name, with crashes, failures of the database and any outcome of each run of a handler: an event and
a handler have at most one row, at most one committed transaction, and at most one call to each of
`CommandBus` and `MessagePublisher`; a transaction belongs to the delivery that has inserted the row,
and has written something only if the row says that the handler has succeeded. Once there is a row,
no further transaction of that handler is committed, and only the delivery that has inserted the row
ever sends for it. -/
theorem at_most_once (subscriptionName : String) (getHandlerTypes : M → List String)
    (violation : String)
    (hrun : Machine.run (step subscriptionName getHandlerTypes violation) .init as = some s) :
    (∀ eventId handlerType,
      (s.database.handledEvents.filter fun row => row.2.id = eventId ∧
        row.2.subscriptionName = handlerSubscription subscriptionName handlerType).length ≤ 1 ∧
      (s.database.transactions.filter fun t =>
        t.eventId = eventId ∧ t.handlerType = handlerType).length ≤ 1 ∧
      ∀ isCommands, (s.sent.filter fun e => e.eventId = eventId ∧ e.handlerType = handlerType ∧
        e.outgoing.isCommands = isCommands).length ≤ 1) ∧
      (∀ t ∈ s.database.transactions, ∃ row ∈ s.database.handledEvents, row.1 = t.delivery ∧
        row.2.id = t.eventId ∧
        row.2.subscriptionName = handlerSubscription subscriptionName t.handlerType ∧
        (t.writes ≠ [] → row.2.failed = false)) ∧
      ∀ row ∈ s.database.handledEvents, row.1 < s.deliveryCount ∧
        ∀ handlerType,
          row.2.subscriptionName = handlerSubscription subscriptionName handlerType →
        ∀ as' s',
          Machine.run (step subscriptionName getHandlerTypes violation) s as' = some s' →
          (s'.database.transactions.filter fun t =>
              t.eventId = row.2.id ∧ t.handlerType = handlerType) =
            (s.database.transactions.filter fun t =>
              t.eventId = row.2.id ∧ t.handlerType = handlerType) ∧
          ∀ e ∈ s'.sent, e.eventId = row.2.id → e.handlerType = handlerType →
            e.delivery = row.1 := by
  have h := consistent_of_run hrun
  refine ⟨h.at_most_one, fun t => h.row_of_transaction, ?_⟩
  intro row hrow
  have howner : (row.1, row.2.key) ∈ s.database.owners := List.mem_map_of_mem hrow
  refine ⟨h.made _ howner, ?_⟩
  intro handlerType hname as' s' hrun'
  have hkey : row.2.key = rowKey subscriptionName row.2.id handlerType := by
    rw [HandledEvent.key, hname]
    rfl
  rw [hkey] at howner
  obtain ⟨ts, hts⟩ := transactions_run hrun'
  have h' := consistent_of_run (Machine.run_append_eq_some.2 ⟨s, hrun, hrun'⟩)
  refine ⟨?_, ?_⟩
  · rw [hts, List.filter_append, h.no_transaction_after h' hts howner, List.append_nil]
  · intro e he hid htype
    have howner' : (row.1, rowKey subscriptionName row.2.id handlerType) ∈ s'.database.owners := by
      rw [h.owners_append h' hts]
      exact List.mem_append_left _ howner
    refine h'.owner_unique (h'.sent e he) ?_
    simpa [hid, htype] using howner'

/-- Two deliveries of an event meet at its handler; the second one commits, and the first one fails
on the primary key and leaves. -/
def race : List (Action Nat Nat Unit Nat Nat) :=
  let context : EventContext Unit := ⟨"e", some (), none⟩
  [.deliver 0 context, .deliver 1 context, .check 0, .check 1,
    .handle 0 ⟨[7], [], .new, none⟩, .handle 1 ⟨[8], [5], .new, none⟩,
    .save 1, .save 0, .fail 0, .send 1, .publish 1, .commitOffset 0, .commitOffset 1]

theorem at_most_once_of_race :
    ∃ s, Machine.run (step "sub" (fun _ : Unit => ["A"]) "duplicate key") .init race = some s ∧
      s.database.transactions = [⟨1, "e", "A", [8]⟩] ∧
      ∀ eventId handlerType, (s.database.transactions.filter fun t =>
        t.eventId = eventId ∧ t.handlerType = handlerType).length ≤ 1 := by
  have hany : (Machine.run (step "sub" (fun _ : Unit => ["A"]) "duplicate key") .init race).any
      (fun s => decide (s.database.transactions = [⟨1, "e", "A", [8]⟩])) = true := by
    decide +kernel
  obtain ⟨s, hrun, htransactions⟩ := (Option.any_eq_true _ _).1 hany
  exact ⟨s, hrun, of_decide_eq_true htransactions, fun eventId handlerType =>
    ((at_most_once "sub" (fun _ : Unit => ["A"]) "duplicate key" hrun).1 eventId handlerType).2.1⟩

end Runs

end IFramework.EventSubscribers
