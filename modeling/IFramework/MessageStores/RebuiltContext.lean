import IFramework.MessageStores.Outbox

/-!
# Contexts rebuilt from the outbox

The constructor of `UnSentMessage` writes the fields of a context into a row, and
`GetAllUnSentMessages` passes the fields of the row to `WrapMessage`, which has its own defaults for
what is empty. The constructor leaves the column `Producer` empty, and there is no column for the
key. `rebuilt_iff` says which contexts come back as they were stored.
-/

namespace IFramework.Outboxes

variable {O : Type} (interface : IMessage O)

/-- The message of a context is an `IMessage`. -/
def MessageContext.Wraps (context : MessageContext O) (message : O) : Prop :=
  context.message = some message ∧ interface.isMessage message = true

/-- The contexts that were stored are those that `GetAllUnSentMessages` gives. -/
def Rebuilt (contexts : List (MessageContext O)) : Prop :=
  (getAllUnSentMessages interface (contexts.map UnSentMessage.new)).1 = contexts

/-- Nothing is lost on the way into the row, and no default replaces what is read. -/
structure MessageContext.Restorable (context : MessageContext O) (message : O) : Prop where
  /-- An empty id is replaced by the one of the message. -/
  messageId : context.messageId = "" → interface.id message = ""
  /-- An empty topic is replaced by the one of the message. -/
  topic : isNullOrEmpty context.topic → interface.getTopic message = context.topic
  /-- The key is the one of the message. -/
  key : context.key = if isNullOrWhiteSpace (interface.key message) then some context.messageId
    else interface.key message
  /-- An empty string is not read. -/
  correlationId : context.correlationId ≠ some ""
  replyToEndPoint : context.replyToEndPoint ≠ some ""
  /-- A saga without an id is not read. -/
  sagaInfo : ∀ info, context.sagaInfo = some info → isNullOrWhiteSpace info.sagaId = false
  /-- The producer is not written. -/
  producer : context.producer = none

variable {interface}

theorem nonEmpty_eq_self_iff {s : Option String} : nonEmpty s = s ↔ s ≠ some "" := by
  cases s with
  | none => simp [nonEmpty]
  | some s => by_cases hs : s = "" <;> simp [nonEmpty, isNullOrEmpty, hs]

/-- The topic of a row that has none is the one of the message. -/
theorem topic_eq_iff {topic default : Option String} :
    (nonEmpty topic).or default = topic ↔ (isNullOrEmpty topic → default = topic) := by
  cases topic with
  | none => simp [nonEmpty, isNullOrEmpty]
  | some s => by_cases hs : s = "" <;> simp [nonEmpty, isNullOrEmpty, hs]

theorem sagaInfo_eq_iff {sagaInfo : Option SagaInfo} :
    (if isNullOrWhiteSpace (sagaInfo.getD ⟨none, none⟩).sagaId then none
      else some (sagaInfo.getD ⟨none, none⟩)) = sagaInfo ↔
      ∀ info, sagaInfo = some info → isNullOrWhiteSpace info.sagaId = false := by
  cases sagaInfo with
  | none => simp [isNullOrWhiteSpace]
  | some info => cases hblank : isNullOrWhiteSpace info.sagaId <;> simp [hblank]

theorem messageId_eq_iff {messageId default : String} :
    (if messageId = "" then default else messageId) = messageId ↔
      (messageId = "" → default = "") := by
  by_cases hempty : messageId = "" <;> simp [hempty]

theorem wrapMessage_new (context : MessageContext O) (message : O) :
    (UnSentMessage.new context).wrapMessage interface message =
      let messageId := if context.messageId = "" then interface.id message else context.messageId
      { messageId := messageId
        message := some message
        correlationId := nonEmpty context.correlationId
        replyToEndPoint := nonEmpty context.replyToEndPoint
        sagaInfo :=
          if isNullOrWhiteSpace (context.sagaInfo.getD ⟨none, none⟩).sagaId then none
          else some (context.sagaInfo.getD ⟨none, none⟩)
        topic := (nonEmpty context.topic).or (interface.getTopic message)
        key :=
          if isNullOrWhiteSpace (interface.key message) then some messageId
          else interface.key message
        producer := none } := rfl

theorem wrapMessage_new_iff {context : MessageContext O} {message : O}
    (h : context.Wraps interface message) :
    (UnSentMessage.new context).wrapMessage interface message = context ↔
      context.Restorable interface message := by
  obtain ⟨messageId, _, correlationId, replyToEndPoint, sagaInfo, topic, key, producer⟩ := context
  obtain ⟨rfl, -⟩ := h
  simp only [wrapMessage_new, MessageContext.mk.injEq, true_and]
  constructor
  · rintro ⟨hid, hcorrelation, hreply, hsaga, htopic, hkey, hproducer⟩
    rw [hid] at hkey
    exact ⟨messageId_eq_iff.1 hid, topic_eq_iff.1 htopic, hkey.symm,
      nonEmpty_eq_self_iff.1 hcorrelation, nonEmpty_eq_self_iff.1 hreply, sagaInfo_eq_iff.1 hsaga,
      hproducer.symm⟩
  · rintro ⟨hid, htopic, hkey, hcorrelation, hreply, hsaga, hproducer⟩
    have hid : (if messageId = "" then interface.id message else messageId) = messageId :=
      messageId_eq_iff.2 hid
    rw [hid]
    exact ⟨rfl, nonEmpty_eq_self_iff.2 hcorrelation, nonEmpty_eq_self_iff.2 hreply,
      sagaInfo_eq_iff.2 hsaga, topic_eq_iff.2 htopic, hkey.symm, hproducer.symm⟩

theorem rebuilt_cons_iff {context : MessageContext O} {contexts : List (MessageContext O)}
    {message : O} (h : context.Wraps interface message) :
    Rebuilt interface (context :: contexts) ↔
      context.Restorable interface message ∧ Rebuilt interface contexts := by
  have hraw : (UnSentMessage.new context).rawMessage interface = some message := by
    rw [UnSentMessage.rawMessage, UnSentMessage.new, h.1, Option.filter_some, if_pos h.2]
  rw [← wrapMessage_new_iff h, Rebuilt, Rebuilt, getAllUnSentMessages, List.map_cons,
    List.filterMap_cons, hraw]
  exact List.cons_eq_cons

/-- The contexts of `IMessage`s come back exactly if each of them can be restored. -/
theorem rebuilt_iff {contexts : List (MessageContext O)}
    (h : ∀ context ∈ contexts, ∃ message, context.Wraps interface message) :
    Rebuilt interface contexts ↔
      ∀ context ∈ contexts, ∀ message, context.Wraps interface message →
        context.Restorable interface message := by
  induction contexts with
  | nil => simp [Rebuilt, getAllUnSentMessages]
  | cons context contexts ih =>
    obtain ⟨message, hmessage⟩ := h context List.mem_cons_self
    have hone : (∀ message, context.Wraps interface message →
        context.Restorable interface message) ↔ context.Restorable interface message := by
      refine ⟨fun hall => hall message hmessage, ?_⟩
      rintro hrestorable message' ⟨hmessage', -⟩
      rw [hmessage.1] at hmessage'
      cases hmessage'
      exact hrestorable
    rw [rebuilt_cons_iff hmessage, List.forall_mem_cons, hone,
      ih fun context' hcontext' => h context' (List.mem_cons_of_mem context hcontext')]

/-! ## A command of a saga -/

/-- A command with an id and a topic, and without a key. -/
def sampleCommand : IMessage String where
  isMessage := fun _ => true
  id := fun command => command
  key := fun _ => none
  getTopic := fun _ => some "commands"

/-- What `WrapCommand` makes of it. -/
def sampleContext (producer : Option String) : MessageContext String where
  messageId := "c1"
  message := some "c1"
  correlationId := some "e1"
  replyToEndPoint := some "replies"
  sagaInfo := some ⟨some "s1", some "replies"⟩
  topic := some "commands"
  key := some "c1"
  producer := producer

/-- The producer is lost. -/
theorem not_rebuilt_producer : ¬ Rebuilt sampleCommand [sampleContext (some "p1")] := by
  unfold Rebuilt
  decide

theorem rebuilt_iff_sampleContext :
    Rebuilt sampleCommand [sampleContext none] ↔
      ∀ context ∈ [sampleContext none], ∀ message, context.Wraps sampleCommand message →
        context.Restorable sampleCommand message := by
  apply rebuilt_iff
  rintro context hcontext
  cases List.mem_singleton.1 hcontext
  exact ⟨"c1", rfl, rfl⟩

end IFramework.Outboxes
