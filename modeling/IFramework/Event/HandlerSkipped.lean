import IFramework.Event.AtMostOnce

/-!
# Which handlers have run when the offset is committed

`CommitOffset` stands in the `finally` block, and the loop over the handlers can be left early: when
`SaveFailHandledEventAsync` fails on the primary key, because another delivery of the event has
recorded the current handler in the meantime, the exception goes to the outer `catch`. The handlers
that are left have no row then, unless others have put them there.
-/

namespace IFramework.EventSubscribers

section Definitions

variable {W C M P R : Type} (subscriptionName : String) (getHandlerTypes : M → List String)

/-- A handler has a row for an event. -/
def recorded (db : Database W) (eventId handlerType : String) : Bool :=
  hasEventHandledAsync db eventId (handlerSubscription subscriptionName handlerType)

/-- The actions that happen while the database is available. -/
def Action.databaseAvailable : Action W C M P R → Bool
  | .checkFails _ _ | .saveFails _ _ | .failFails _ => false
  | _ => true

/-- When a delivery records the failure of a handler that has a row already, the handlers that come
after it have rows too. -/
def leavesNone (s : State W C M P R) : Action W C M P R → Bool
  | .fail d =>
    let delivery := s.deliveries d
    match delivery.handlerTypes with
    | h :: hs =>
      !recorded subscriptionName s.database delivery.context.messageId h ||
        hs.all (recorded subscriptionName s.database delivery.context.messageId)
    | [] => true
  | _ => true

end Definitions

/-! ## The invariant -/

section Invariant

variable {W C M P R : Type} {subscriptionName : String} {getHandlerTypes : M → List String}
  {violation : String} {s s' : State W C M P R} {d : Nat}

theorem recorded_iff {db : Database W} {eventId handlerType : String} :
    recorded subscriptionName db eventId handlerType = true ↔
      rowKey subscriptionName eventId handlerType ∈ db.owners.map Prod.snd :=
  hasEventHandledAsync_iff

/-- The handlers that a delivery has behind it have rows; all of them, once it commits the offset. -/
structure Covered (subscriptionName : String) (getHandlerTypes : M → List String)
    (db : Database W) (delivery : Delivery W C M P R) : Prop where
  done : ∃ done, handlersOf getHandlerTypes delivery.context = done ++ delivery.handlerTypes ∧
    ∀ h ∈ done, recorded subscriptionName db delivery.context.messageId h = true
  current : (∃ commands messages, delivery.point = .send commands messages) ∨
      (∃ messages, delivery.point = .publish messages) →
    ∀ h hs, delivery.handlerTypes = h :: hs →
      recorded subscriptionName db delivery.context.messageId h = true
  committed : delivery.point = .commitOffset ∨ delivery.offsetCommitted = true →
    ∀ h ∈ handlersOf getHandlerTypes delivery.context,
      recorded subscriptionName db delivery.context.messageId h = true

theorem Covered.mono {db db' : Database W} {delivery : Delivery W C M P R}
    (h : Covered subscriptionName getHandlerTypes db delivery)
    (hrows : ∀ eventId handlerType, recorded subscriptionName db eventId handlerType = true →
      recorded subscriptionName db' eventId handlerType = true) :
    Covered subscriptionName getHandlerTypes db' delivery := by
  obtain ⟨done, hsplit, hdone⟩ := h.done
  exact ⟨⟨done, hsplit, fun h' hmem => hrows _ _ (hdone h' hmem)⟩,
    fun hpoint h' hs htypes => hrows _ _ (h.current hpoint h' hs htypes),
    fun hpoint h' hmem => hrows _ _ (h.committed hpoint h' hmem)⟩

theorem Covered.move {db : Database W} {delivery delivery' : Delivery W C M P R}
    (h : Covered subscriptionName getHandlerTypes db delivery)
    (hcontext : delivery'.context = delivery.context)
    (htypes : delivery'.handlerTypes = delivery.handlerTypes)
    (hoffset : delivery'.offsetCommitted = delivery.offsetCommitted)
    (hsend : ∀ commands messages, delivery'.point ≠ .send commands messages)
    (hpublish : ∀ messages, delivery'.point = .publish messages →
      ∃ commands, delivery.point = .send commands messages)
    (hcommit : delivery'.point ≠ .commitOffset) :
    Covered subscriptionName getHandlerTypes db delivery' := by
  refine ⟨?_, ?_, ?_⟩
  · rw [hcontext, htypes]
    exact h.done
  · rw [hcontext, htypes]
    rintro (⟨commands, messages, hpoint⟩ | ⟨messages, hpoint⟩)
    · exact absurd hpoint (hsend _ _)
    · obtain ⟨commands, hpoint⟩ := hpublish messages hpoint
      exact h.current (.inl ⟨commands, messages, hpoint⟩)
  · rw [hcontext, hoffset]
    rintro (hpoint | hoffset)
    · exact absurd hpoint hcommit
    · exact h.committed (.inr hoffset)

/-- At the head of the loop the handlers that are not left have rows. -/
theorem Covered.of_split {db : Database W} {delivery : Delivery W C M P R} {done hs : List String}
    (hsplit : handlersOf getHandlerTypes delivery.context = done ++ hs)
    (hdone : ∀ h ∈ done, recorded subscriptionName db delivery.context.messageId h = true)
    (hoffset : delivery.offsetCommitted = true →
      ∀ h ∈ handlersOf getHandlerTypes delivery.context,
        recorded subscriptionName db delivery.context.messageId h = true) :
    Covered subscriptionName getHandlerTypes db (delivery.loop hs) := by
  refine ⟨⟨done, hsplit, hdone⟩, ?_, ?_⟩
  · rintro (⟨commands, messages, hpoint⟩ | ⟨messages, hpoint⟩)
    · simp only [Delivery.loop] at hpoint
      split at hpoint <;> cases hpoint
    · simp only [Delivery.loop] at hpoint
      split at hpoint <;> cases hpoint
  · rintro (hpoint | hcommitted)
    · have hnil : hs = [] := by
        by_contra hne
        simp [Delivery.loop, hne] at hpoint
      intro h hmem
      have hmem : h ∈ handlersOf getHandlerTypes delivery.context := hmem
      rw [hsplit, hnil, List.append_nil] at hmem
      exact hdone h hmem
    · exact hoffset hcommitted

theorem Covered.loop {db : Database W} {delivery : Delivery W C M P R}
    (h : Covered subscriptionName getHandlerTypes db delivery) {h' : String} {hs : List String}
    (htypes : delivery.handlerTypes = h' :: hs)
    (hrecorded : recorded subscriptionName db delivery.context.messageId h' = true) :
    Covered subscriptionName getHandlerTypes db (delivery.loop hs) := by
  obtain ⟨done, hsplit, hdone⟩ := h.done
  have hsplit' : handlersOf getHandlerTypes delivery.context = (done ++ [h']) ++ hs := by
    rw [hsplit, htypes, List.append_assoc, List.singleton_append]
  refine .of_split hsplit' ?_ (fun hoffset => h.committed (.inr hoffset))
  intro h'' hmem
  rcases List.mem_append.1 hmem with hmem | hmem
  · exact hdone h'' hmem
  · rw [List.mem_singleton.1 hmem]
    exact hrecorded

theorem Covered.record {db : Database W} {delivery delivery' : Delivery W C M P R}
    (h : Covered subscriptionName getHandlerTypes db delivery) {h' : String} {hs : List String}
    (htypes : delivery.handlerTypes = h' :: hs)
    (hrecorded : recorded subscriptionName db delivery.context.messageId h' = true)
    (hcontext : delivery'.context = delivery.context)
    (htypes' : delivery'.handlerTypes = delivery.handlerTypes)
    (hoffset : delivery'.offsetCommitted = delivery.offsetCommitted)
    (hcommit : delivery'.point ≠ .commitOffset) :
    Covered subscriptionName getHandlerTypes db delivery' := by
  refine ⟨?_, ?_, ?_⟩
  · rw [hcontext, htypes']
    exact h.done
  · intro _ h'' hs' heq
    rw [htypes', htypes] at heq
    obtain ⟨rfl, rfl⟩ := List.cons.inj heq
    rw [hcontext]
    exact hrecorded
  · rw [hcontext, hoffset]
    rintro (hpoint | hoffset)
    · exact absurd hpoint hcommit
    · exact h.committed (.inr hoffset)

theorem recorded_saveChanges (subscriptionName : String) {db db' : Database W}
    {eventId handlerType : String}
    {context : DbContext W} {e : HandledEvent} (he : context.handledEvents = [e])
    (hsaved : db.saveChanges d eventId handlerType context = some db')
    (eventId' handlerType' : String) :
    recorded subscriptionName db' eventId' handlerType' = true ↔
      recorded subscriptionName db eventId' handlerType' = true ∨
        rowKey subscriptionName eventId' handlerType' = e.key := by
  obtain ⟨-, hrows, -⟩ := saveChanges_eq_some he hsaved
  have howners : db'.owners = db.owners ++ [(d, e.key)] := by
    simp [Database.owners, hrows]
  rw [recorded_iff, recorded_iff, howners, List.map_append, List.mem_append, List.map_singleton,
    List.mem_singleton]

/-- All deliveries are covered. -/
def AllCovered (subscriptionName : String) (getHandlerTypes : M → List String)
    (s : State W C M P R) : Prop :=
  ∀ d, Covered subscriptionName getHandlerTypes s.database (s.deliveries d)

theorem AllCovered.init :
    AllCovered subscriptionName getHandlerTypes (.init : State W C M P R) := by
  intro d
  refine ⟨⟨[], rfl, by simp⟩, ?_, ?_⟩
  · rintro (⟨commands, messages, hpoint⟩ | ⟨messages, hpoint⟩) <;> cases hpoint
  · rintro (hpoint | hoffset)
    · cases hpoint
    · cases hoffset

theorem AllCovered.update (h : AllCovered subscriptionName getHandlerTypes s)
    {db : Database W}
    (hrows : ∀ eventId handlerType,
      recorded subscriptionName s.database eventId handlerType = true →
        recorded subscriptionName db eventId handlerType = true)
    {delivery : Delivery W C M P R}
    (hdelivery : Covered subscriptionName getHandlerTypes db delivery) (d' : Nat) :
    Covered subscriptionName getHandlerTypes db (Function.update s.deliveries d delivery d') := by
  by_cases heq : d' = d
  · subst heq
    simpa using hdelivery
  · simpa [heq] using (h d').mono hrows

theorem Covered.new (db : Database W) (subscriber : Nat) (context : EventContext M) :
    Covered subscriptionName getHandlerTypes db
      (Delivery.loop (⟨subscriber, context, [], .empty, .check, false⟩ : Delivery W C M P R)
        (handlersOf getHandlerTypes context)) :=
  .of_split (List.nil_append _).symm (by simp) (by simp)

theorem AllCovered.step (hconsistent : Consistent subscriptionName s)
    (h : AllCovered subscriptionName getHandlerTypes s) {a : Action W C M P R}
    (hdatabase : a.databaseAvailable = true) (hleaves : leavesNone subscriptionName s a = true)
    (hstep : EventSubscribers.step subscriptionName getHandlerTypes violation s a = some s') :
    AllCovered subscriptionName getHandlerTypes s' := by
  have hsame : ∀ eventId handlerType,
      recorded subscriptionName s.database eventId handlerType = true →
        recorded subscriptionName s.database eventId handlerType = true := fun _ _ hr => hr
  cases Transition.of_step hstep with
  | deliver subscriber context => exact h.update hsame (.new _ _ _)
  | @skip d h' hs hpoint htypes hhandled => exact h.update hsame ((h d).loop htypes hhandled)
  | @begin d h' hs hpoint htypes =>
    exact h.update hsame ((h d).move rfl rfl rfl (by simp) (by simp) (by simp))
  | @checkFails d e hpoint => cases hdatabase
  | @handle d run hpoint =>
    refine h.update hsame ((h d).move rfl rfl rfl ?_ ?_ ?_)
    all_goals cases run.thrown <;> simp
  | @save d commands bus h' hs database hpoint htypes hsaved =>
    have htracked := (hconsistent.deliveries d).tracked (.inr (.inr ⟨commands, bus, hpoint⟩))
    have hrow : (handleEventAsync (s.deliveries d).tracked (s.deliveries d).context
        (handlerSubscription subscriptionName h')).handledEvents =
        [⟨(s.deliveries d).context.messageId, handlerSubscription subscriptionName h',
          false⟩] := by
      simp [handleEventAsync, htracked]
    have hadds := recorded_saveChanges subscriptionName hrow hsaved
    have hrows := fun eventId handlerType => (hadds eventId handlerType).2 ∘ Or.inl
    have hrecorded := (hadds (s.deliveries d).context.messageId h').2 (.inr rfl)
    refine h.update hrows (((h d).mono hrows).record htypes hrecorded rfl rfl rfl ?_)
    simp
  | @saveFails _ d commands bus e tracked haction hpoint =>
    exact h.update hsame ((h d).move rfl rfl rfl (by simp) (by simp) (by simp))
  | @send d commands messages h' hs hpoint htypes =>
    exact h.update hsame ((h d).move rfl rfl rfl (by simp) (by simp [hpoint]) (by simp))
  | @publish d messages h' hs hpoint htypes =>
    have hcurrent := (h d).current (.inr ⟨messages, hpoint⟩) h' hs htypes
    exact h.update hsame ((h d).loop htypes hcurrent)
  | @fail d e bus h' hs database hpoint htypes hsaved =>
    have hadds := recorded_saveChanges subscriptionName rfl hsaved
    have hrows := fun eventId handlerType => (hadds eventId handlerType).2 ∘ Or.inl
    have hrecorded := (hadds (s.deliveries d).context.messageId h').2 (.inr rfl)
    refine h.update hrows (((h d).mono hrows).record htypes hrecorded rfl rfl rfl ?_)
    simp
  | @leave d e bus h' hs hpoint htypes hviolation =>
    -- the row of the current handler is there, and so are those of the handlers that are left
    have htaken := mem_owners_of_saveChanges_eq_none hconsistent.unique rfl hviolation
    have hcurrent : recorded subscriptionName s.database (s.deliveries d).context.messageId h' =
        true := recorded_iff.2 htaken
    have hrest : ∀ h'' ∈ hs,
        recorded subscriptionName s.database (s.deliveries d).context.messageId h'' = true := by
      simpa [leavesNone, htypes, hcurrent] using hleaves
    obtain ⟨done, hsplit, hdone⟩ := (h d).done
    refine h.update hsame ⟨(h d).done, by simp, ?_⟩
    intro _ h'' hmem
    have hmem : h'' ∈ done ++ h' :: hs := by
      rw [← htypes, ← hsplit]
      exact hmem
    rcases List.mem_append.1 hmem with hmem | hmem
    · exact hdone h'' hmem
    · rcases List.mem_cons.1 hmem with rfl | hmem
      · exact hcurrent
      · exact hrest h'' hmem
  | @failFails d e bus hpoint => cases hdatabase
  | @commitOffset d hpoint =>
    exact h.update hsame
      ⟨(h d).done, by simp, fun _ => (h d).committed (.inl hpoint)⟩
  | crash subscriber =>
    intro d
    simp only [State.crash]
    split
    · exact (h d).move rfl rfl rfl (by simp) (by simp) (by simp)
    · exact h d

end Invariant

/-! ## Every run -/

section Runs

variable {W C M P R : Type} {subscriptionName : String} {getHandlerTypes : M → List String}
  {violation : String} {as : List (Action W C M P R)} {s s' : State W C M P R} {d : Nat}

/-- The handlers that are left are the last ones of the event. -/
def AtEnd (getHandlerTypes : M → List String) (s : State W C M P R) : Prop :=
  ∀ d, (s.deliveries d).handlerTypes <:+ handlersOf getHandlerTypes (s.deliveries d).context

theorem AtEnd.update (h : AtEnd getHandlerTypes s) {delivery : Delivery W C M P R}
    (hdelivery : delivery.handlerTypes <:+ handlersOf getHandlerTypes delivery.context) (d' : Nat) :
    (Function.update s.deliveries d delivery d').handlerTypes <:+
      handlersOf getHandlerTypes (Function.update s.deliveries d delivery d').context := by
  by_cases heq : d' = d
  · subst heq
    simpa using hdelivery
  · simpa [heq] using h d'

theorem AtEnd.step (h : AtEnd getHandlerTypes s) {a : Action W C M P R}
    (hstep : EventSubscribers.step subscriptionName getHandlerTypes violation s a = some s') :
    AtEnd getHandlerTypes s' := by
  have htail : ∀ d h' hs, (s.deliveries d).handlerTypes = h' :: hs →
      hs <:+ handlersOf getHandlerTypes (s.deliveries d).context := by
    intro d h' hs htypes
    have hsuffix := h d
    rw [htypes] at hsuffix
    exact (List.suffix_cons h' hs).trans hsuffix
  cases Transition.of_step hstep with
  | deliver subscriber context => exact h.update (List.suffix_refl _)
  | skip hpoint htypes hhandled => exact h.update (htail _ _ _ htypes)
  | publish hpoint htypes => exact h.update (htail _ _ _ htypes)
  | crash subscriber =>
    intro d
    simp only [State.crash]
    split <;> exact h d
  | begin hpoint htypes => exact h.update (h _)
  | checkFails hpoint => exact h.update (h _)
  | handle hpoint => exact h.update (h _)
  | save hpoint htypes hsaved => exact h.update (h _)
  | saveFails haction hpoint => exact h.update (h _)
  | send hpoint htypes => exact h.update (h _)
  | fail hpoint htypes hsaved => exact h.update (h _)
  | leave hpoint htypes hviolation => exact h.update (h _)
  | failFails hpoint => exact h.update (h _)
  | commitOffset hpoint => exact h.update (h _)

/-- Both deliveries look for the handler `A` before one of them has recorded it. The second one fails
on the row of the first and commits the offset; then the first one crashes. -/
def overtaken : List (Action Nat Nat Unit Nat Nat) :=
  let context : EventContext Unit := ⟨"e", some (), none⟩
  [.deliver 0 context, .deliver 1 context, .check 0, .check 1, .handle 0 ⟨[7], [], .new, none⟩,
    .handle 1 ⟨[7], [], .new, none⟩, .save 0, .save 1, .fail 1, .commitOffset 1, .crash 0]

end Runs

end IFramework.EventSubscribers
