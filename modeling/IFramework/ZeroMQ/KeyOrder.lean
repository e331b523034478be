import IFramework.Theory.Run
import IFramework.ZeroMQ.CommandDistributor

/-!
# Commands with the same key

Commands arrive at the distributor, which takes the frames of its queue one after the other. What
it pushes reaches its consumer in the order in which it was pushed; the consumers work side by side.
What a consumer has handled it notifies once: the notification is on its way for any time, and may
be overtaken by others or never arrive. A command counts as handled also when the `ConsumeMessage`
of the consumer throws; its notification never arrives. An exception in `ConsumeMessages` ends the
loop, and then the distributor takes nothing any more.

`DistributableCommandBus` is not part of the system: as the bus of a distributor it enqueues a
second notification for each reply, and the one that finds no command on the books ends the loop.
Sending a frame does not throw.

The commands with one key are handled in the order in which they arrived, whichever consumers there
are and whatever the interleaving (`handled_in_order`). The loop goes on exactly as long as no
command arrives while one with the same id is on the books, and no command with a key when there are
no consumers (`goes_on_iff`). Once everything is handled and notified, nothing is left on the books
(`payloads_return`).
-/

namespace IFramework.ZeroMQ

open Machine

/-- A frame in the queue of the distributor. -/
inductive Frame where
  | message (c : CommandContext)
  | notification (messageID : String)

def Frame.context : Frame → Option CommandContext
  | message c => some c
  | notification _ => none

def Frame.notice : Frame → Option String
  | message _ => none
  | notification messageID => some messageID

/-- A distributor with its consumers. -/
structure System where
  distributor : CommandDistributor
  frames : List Frame
  /-- `ConsumeMessages` has ended. -/
  stopped : Bool
  /-- What has been pushed and not been handled, with the consumer that it was pushed to. -/
  onTheWay : List (Nat × CommandContext)
  /-- The notifications that have not arrived. -/
  notices : List String
  /-- The commands that have arrived, and those that have been handled. -/
  arrived : List CommandContext
  handled : List CommandContext

namespace System

def init (receiveEndPoint : Option String) (targetEndPoints : Nat) : System where
  distributor := .start receiveEndPoint targetEndPoints
  frames := []
  stopped := false
  onTheWay := []
  notices := []
  arrived := []
  handled := []

inductive Action where
  /-- A command arrives. -/
  | arrive (c : CommandContext)
  /-- The distributor takes a frame. -/
  | consumeMessage
  /-- A consumer handles the first of its commands, and sends its only notification. -/
  | handle (i : Nat)
  /-- A notification arrives. -/
  | notify (n : Nat)

/-- `ConsumeMessage`. -/
def consume (d : CommandDistributor) : Frame → Consumed
  | .message c => d.consumeMessageContext c
  | .notification messageID => d.consumeHandledNotification messageID

def step (s : System) : Action → Option System
  | .arrive c => some { s with frames := s.frames ++ [.message c], arrived := s.arrived ++ [c] }
  | .consumeMessage =>
    match s.stopped, s.frames with
    | false, frame :: frames =>
      let consumed := consume s.distributor frame
      some { s with
        distributor := consumed.distributor
        frames
        stopped := consumed.threw
        onTheWay := s.onTheWay ++ consumed.pushed.toList }
    | _, _ => none
  | .handle i =>
    (s.onTheWay.find? fun e => e.1 = i).map fun e =>
      { s with
        onTheWay := s.onTheWay.eraseP fun e => e.1 = i
        notices := s.notices ++ [e.2.messageID]
        handled := s.handled ++ [e.2] }
  | .notify n =>
    s.notices[n]?.map fun messageID =>
      { s with
        frames := s.frames ++ [.notification messageID]
        notices := s.notices.eraseIdx n }

/-! ## Where a command is -/

/-- The commands that are pushed, and not off the books. -/
def outstanding (s : System) : List String :=
  s.onTheWay.map (·.2.messageID) ++ (s.notices ++ s.frames.filterMap Frame.notice)

/-- What is outstanding is on the books, each command for itself, with the consumer it was pushed
to. -/
structure Located (s : System) : Prop where
  booked : s.distributor.Booked none
  nodup : s.outstanding.Nodup
  known : ∀ id, id ∈ s.outstanding ↔ ∃ state,
    s.distributor.commandStateQueue.lookup id = some state ∧ state.commandConsumer ≠ none
  pushed : ∀ e ∈ s.onTheWay, ∃ state,
    s.distributor.commandStateQueue.lookup e.2.messageID = some state ∧
      state.commandConsumer = some e.1 ∧
      ∀ k, e.2.linearKey = some k → ∃ l x, state.linearCommandConsumer = some l ∧
        s.distributor.linearCommandConsumers[l]? = some x ∧ x.linearKey = k

theorem located_init (receiveEndPoint : Option String) (targetEndPoints : Nat) :
    (init receiveEndPoint targetEndPoints).Located where
  booked := CommandDistributor.booked_start receiveEndPoint targetEndPoints
  nodup := List.nodup_nil
  known id := by simp [outstanding, init, CommandDistributor.start]
  pushed e he := absurd he List.not_mem_nil

variable {s s' : System}

/-- A command is pushed to the consumer of the others with its key. -/
theorem Located.select (h : s.Located) {e : Nat × CommandContext} (he : e ∈ s.onTheWay) {k : String}
    (hk : e.2.linearKey = some k) : (s.distributor.select (some k)).2.2 = some e.1 := by
  obtain ⟨state, hstate, hconsumer, hlinear⟩ := h.pushed e he
  obtain ⟨l, x, hl, hx, rfl⟩ := hlinear k hk
  obtain ⟨x', hx', hlookup, heq⟩ := h.booked.linear _ state hstate l hl
  obtain rfl : x = x' := Option.some.inj (hx.symm.trans hx')
  rw [CommandDistributor.select_of_lookup hlookup, hx, ← hconsumer, heq]
  rfl

theorem outstanding_message (s : System) {c : CommandContext} {frames : List Frame}
    (hframes : s.frames = .message c :: frames) (d : CommandDistributor) (stopped : Bool)
    (pushed : List (Nat × CommandContext)) :
    (outstanding { s with
      distributor := d
      frames
      stopped
      onTheWay := s.onTheWay ++ pushed }).Perm (pushed.map (·.2.messageID) ++ s.outstanding) := by
  simp only [outstanding, hframes, List.map_append, List.append_assoc]
  exact List.perm_append_comm_assoc _ _ _

/-- A command that is not on the books is taken. -/
theorem Located.message (h : s.Located) {c : CommandContext} {frames : List Frame}
    (hframes : s.frames = .message c :: frames)
    (hthrew : (s.distributor.consumeMessageContext c).threw = false) :
    Located { s with
      distributor := (s.distributor.consumeMessageContext c).distributor
      frames
      stopped := false
      onTheWay := s.onTheWay ++ (s.distributor.consumeMessageContext c).pushed.toList } := by
  have hbooked := h.booked.consumeMessageContext hthrew
  have hid := ((h.booked.consumeMessageContext_threw c).1 hthrew).1
  have hkeys := s.distributor.keepsKeys_consumeMessageContext c
  obtain ⟨-, hqueue, -, hnone, hsome⟩ := h.booked.select c.linearKey
  have hperm := s.outstanding_message hframes (s.distributor.consumeMessageContext c).distributor
    false (s.distributor.consumeMessageContext c).pushed.toList
  have hnew : c.messageID ∉ s.outstanding := by
    intro hmem
    obtain ⟨state, hstate, -⟩ := (h.known _).1 hmem
    cases hid.symm.trans hstate
  rcases CommandDistributor.consumeMessageContext_cases s.distributor c with
    ⟨-, -, heq⟩ | ⟨hpush, heq⟩
  · rw [heq] at hthrew
    cases hthrew
  rw [hqueue, hid] at heq
  have hlookup : ∀ id', id' ≠ c.messageID →
      (s.distributor.consumeMessageContext c).distributor.commandStateQueue.lookup id' =
        s.distributor.commandStateQueue.lookup id' := by
    intro id' hne
    rw [heq]
    exact AList.lookup_insert_ne hne
  have hself : (s.distributor.consumeMessageContext c).distributor.commandStateQueue.lookup
      c.messageID = some ⟨c.fromEndPoint, (s.distributor.select c.linearKey).2.2,
        (s.distributor.select c.linearKey).2.1⟩ := by
    rw [heq]
    exact AList.lookup_insert _
  have hpushed : (s.distributor.consumeMessageContext c).pushed =
      (s.distributor.select c.linearKey).2.2.map fun i => (i, s.distributor.received c) := by
    rw [heq]
  have hids : (s.distributor.consumeMessageContext c).pushed.toList.map (·.2.messageID) =
      (s.distributor.select c.linearKey).2.2.toList.map fun _ => c.messageID := by
    rw [hpushed]
    cases (s.distributor.select c.linearKey).2.2 with
    | none => rfl
    | some i => simp [CommandDistributor.received_messageID]
  rw [hids] at hperm
  refine ⟨hbooked, ?_, fun id => ?_, fun e he => ?_⟩
  · rw [hperm.nodup_iff]
    cases (s.distributor.select c.linearKey).2.2 with
    | none => exact h.nodup
    | some i => exact List.nodup_cons.2 ⟨hnew, h.nodup⟩
  · rw [hperm.mem_iff, List.mem_append]
    by_cases hne : id = c.messageID
    · subst hne
      rw [hself, or_iff_left hnew]
      cases (s.distributor.select c.linearKey).2.2 <;> simp
    · rw [hlookup id hne, ← h.known id, or_iff_right]
      cases (s.distributor.select c.linearKey).2.2 <;> simp [hne]
  · rcases List.mem_append.1 he with he | he
    · obtain ⟨state, hstate, hconsumer, hlinear⟩ := h.pushed e he
      have hne : e.2.messageID ≠ c.messageID := by
        intro heq
        rw [heq, hid] at hstate
        cases hstate
      refine ⟨state, (hlookup _ hne).trans hstate, hconsumer, fun k hk => ?_⟩
      obtain ⟨l, x, hl, hx, hkey⟩ := hlinear k hk
      obtain ⟨x', hx', hkey'⟩ := hkeys l x hx
      exact ⟨l, x', hl, hx', hkey'.trans hkey⟩
    · rw [hpushed, Option.mem_toList] at he
      obtain ⟨i, hi, rfl⟩ := Option.map_eq_some_iff.1 he
      refine ⟨⟨c.fromEndPoint, (s.distributor.select c.linearKey).2.2,
        (s.distributor.select c.linearKey).2.1⟩, ?_, hi, fun k hk => ?_⟩
      · rw [CommandDistributor.received_messageID]
        exact hself
      rw [CommandDistributor.received_linearKey] at hk
      rcases Option.eq_none_or_eq_some (s.distributor.select c.linearKey).2.1 with hl | ⟨l, hl⟩
      · cases hk.symm.trans (hnone hl)
      · obtain ⟨x, hx, -, -, hkey⟩ := hsome l hl
        have hx' := CommandDistributor.getElem?_addPayload_of_getElem? hx
          (s.distributor.select c.linearKey).2.2 (s.distributor.select c.linearKey).2.1 1
        have hx'' : (s.distributor.consumeMessageContext c).distributor.linearCommandConsumers[l]? =
            some { x with payload := x.payload +
              if (s.distributor.select c.linearKey).2.1 = some l then 1 else 0 } := by
          rw [heq]
          exact hx'
        exact ⟨l, _, hl, hx'', Option.some.inj (hkey.symm.trans hk)⟩

/-- A notification is for a command on the books. -/
theorem Located.notification (h : s.Located) {id : String} {frames : List Frame}
    (hframes : s.frames = .notification id :: frames) :
    (s.distributor.consumeHandledNotification id).threw = false ∧
      (s.distributor.consumeHandledNotification id).pushed = none ∧
      Located { s with
        distributor := (s.distributor.consumeHandledNotification id).distributor
        frames
        stopped := false
        onTheWay := s.onTheWay ++ [] } := by
  have hperm : s.outstanding.Perm
      (id :: (s.onTheWay.map (·.2.messageID) ++ (s.notices ++ frames.filterMap Frame.notice))) := by
    simp only [outstanding, hframes, List.filterMap_cons, Frame.notice]
    rw [← List.append_assoc, ← List.append_assoc]
    exact List.perm_middle
  obtain ⟨state, hstate, hconsumer⟩ := (h.known id).1 (hperm.mem_iff.2 List.mem_cons_self)
  have hhandled : s.distributor.consumeHandledNotification id =
      ⟨s.distributor.commandHandled id state, none,
        if isNullOrWhiteSpace state.fromEndPoint then none
        else state.fromEndPoint.map fun endPoint => (endPoint, id), false⟩ := by
    simp [CommandDistributor.consumeHandledNotification, hstate, hconsumer]
  obtain ⟨hfresh, hnodup⟩ := List.nodup_cons.1 (hperm.nodup_iff.1 h.nodup)
  have hqueue := s.distributor.commandHandled_commandStateQueue id state
  rw [hhandled]
  refine ⟨rfl, rfl, h.booked.commandHandled hstate, ?_, fun id' => ?_, fun e he => ?_⟩
  · simpa [outstanding] using hnodup
  · have hrest : id' ∈ s.onTheWay.map (·.2.messageID) ++
        (s.notices ++ frames.filterMap Frame.notice) ↔ id' ≠ id ∧ id' ∈ s.outstanding := by
      rw [hperm.mem_iff, List.mem_cons]
      constructor
      · intro hmem
        exact ⟨fun heq => hfresh (heq ▸ hmem), .inr hmem⟩
      · rintro ⟨hne, hor⟩
        exact hor.resolve_left hne
    simp only [outstanding, List.append_nil, hqueue]
    rw [hrest, h.known id']
    by_cases hne : id' = id
    · rw [hne, AList.lookup_erase]
      simp
    · simp [AList.lookup_erase_ne hne, hne]
  · rw [List.append_nil] at he
    obtain ⟨state', hstate', hconsumer', hlinear⟩ := h.pushed e he
    have hne : e.2.messageID ≠ id := by
      rintro rfl
      exact hfresh (List.mem_append_left _ (List.mem_map_of_mem he))
    refine ⟨state', ?_, hconsumer', fun k hk => ?_⟩
    · simp only [hqueue]
      rw [AList.lookup_erase_ne hne, hstate']
    · obtain ⟨l, x, hl, hx, hkey⟩ := hlinear k hk
      obtain ⟨x', hx', hkey'⟩ := s.distributor.keepsKeys_commandHandled id state l x hx
      exact ⟨l, x', hl, hx', hkey'.trans hkey⟩

theorem Located.arrive (h : s.Located) (c : CommandContext) :
    Located { s with frames := s.frames ++ [.message c], arrived := s.arrived ++ [c] } := by
  have hsame : outstanding { s with
      frames := s.frames ++ [.message c], arrived := s.arrived ++ [c] } = s.outstanding := by
    simp [outstanding, Frame.notice]
  exact ⟨h.booked, hsame ▸ h.nodup, hsame ▸ h.known, h.pushed⟩

theorem Located.handle (h : s.Located) {e : Nat × CommandContext}
    {front back : List (Nat × CommandContext)} (he : s.onTheWay = front ++ e :: back) :
    Located { s with
      onTheWay := front ++ back
      notices := s.notices ++ [e.2.messageID]
      handled := s.handled ++ [e.2] } := by
  have hperm : (outstanding { s with
      onTheWay := front ++ back
      notices := s.notices ++ [e.2.messageID]
      handled := s.handled ++ [e.2] }).Perm s.outstanding := by
    simp only [outstanding, he, List.map_append, List.map_cons]
    rw [List.perm_iff_count]
    intro id
    simp only [List.count_append, List.count_cons, List.count_nil]
    omega
  refine ⟨h.booked, hperm.nodup_iff.2 h.nodup, fun id => ?_, fun e' he' => ?_⟩
  · rw [hperm.mem_iff]
    exact h.known id
  · refine h.pushed e' ?_
    rw [he]
    rcases List.mem_append.1 he' with hfront | hback
    · exact List.mem_append_left _ hfront
    · exact List.mem_append_right _ (List.mem_cons_of_mem _ hback)

theorem Located.notify (h : s.Located) {n : Nat} {id : String} (hid : s.notices[n]? = some id) :
    Located { s with
      frames := s.frames ++ [.notification id]
      notices := s.notices.eraseIdx n } := by
  have hperm : (outstanding { s with
      frames := s.frames ++ [.notification id]
      notices := s.notices.eraseIdx n }).Perm s.outstanding := by
    obtain ⟨hlt, hget⟩ := List.getElem?_eq_some_iff.1 hid
    have herase := (List.getElem_cons_eraseIdx_perm hlt).count_eq
    simp only [outstanding, List.filterMap_append]
    rw [List.perm_iff_count]
    intro id'
    have hcount := herase id'
    rw [hget, List.count_cons] at hcount
    simp only [List.count_append, Frame.notice, List.filterMap_cons, List.filterMap_nil,
      List.count_cons, List.count_nil]
    omega
  refine ⟨h.booked, hperm.nodup_iff.2 h.nodup, fun id' => ?_, h.pushed⟩
  rw [hperm.mem_iff]
  exact h.known id'

/-! ## The order of a key -/

/-- The ids of the commands with a key. -/
def idsOf (k : String) (cs : List CommandContext) : List String :=
  (cs.filter fun c => c.linearKey = some k).map (·.messageID)

@[simp] theorem idsOf_nil (k : String) : idsOf k [] = [] := rfl

@[simp] theorem idsOf_append (k : String) (cs cs' : List CommandContext) :
    idsOf k (cs ++ cs') = idsOf k cs ++ idsOf k cs' := by
  simp [idsOf]

theorem idsOf_of_forall_ne {k : String} {cs : List CommandContext}
    (h : ∀ c ∈ cs, c.linearKey ≠ some k) : idsOf k cs = [] := by
  rw [idsOf, List.map_eq_nil_iff, List.filter_eq_nil_iff]
  intro c hc
  simpa using h c hc

theorem idsOf_cons (k : String) (c : CommandContext) (cs : List CommandContext) :
    idsOf k (c :: cs) = idsOf k [c] ++ idsOf k cs := idsOf_append k [c] cs

/-- What a consumer is notified by has no effect on the order. -/
theorem idsOf_received (k : String) (d : CommandDistributor) (c : CommandContext) :
    idsOf k [d.received c] = idsOf k [c] := by
  simp only [idsOf, List.filter_cons, List.filter_nil, d.received_linearKey c]
  split
  · simp [d.received_messageID c]
  · rfl

/-- The commands with a key have been pushed to one consumer, and they are handled in order. -/
structure Ordered (s : System) : Prop where
  located : s.stopped = false → s.Located
  together : ∀ e ∈ s.onTheWay, ∀ e' ∈ s.onTheWay, ∀ k, e.2.linearKey = some k →
    e'.2.linearKey = some k → e.1 = e'.1
  order : ∀ k, ∃ rest,
    idsOf k s.handled ++ idsOf k (s.onTheWay.map (·.2)) ++ rest = idsOf k s.arrived ∧
      (s.stopped = false → rest = idsOf k (s.frames.filterMap Frame.context))

theorem ordered_init (receiveEndPoint : Option String) (targetEndPoints : Nat) :
    (init receiveEndPoint targetEndPoints).Ordered where
  located _ := located_init receiveEndPoint targetEndPoints
  together _ he := absurd he List.not_mem_nil
  order _ := ⟨[], rfl, fun _ => rfl⟩

/-- What is pushed for a command. -/
theorem Located.pushed_cases (h : s.Located) (c : CommandContext) :
    ((s.distributor.consumeMessageContext c).pushed = none ∧
        ((s.distributor.consumeMessageContext c).threw = true ∨ c.linearKey = none)) ∨
      ∃ i, (s.distributor.consumeMessageContext c).pushed = some (i, s.distributor.received c) ∧
        (s.distributor.select c.linearKey).2.2 = some i := by
  obtain ⟨-, -, -, hnone, -⟩ := h.booked.select c.linearKey
  rcases CommandDistributor.consumeMessageContext_cases s.distributor c with
    ⟨-, -, heq⟩ | ⟨hpush, heq⟩
  · exact .inl ⟨by rw [heq], .inl (by rw [heq])⟩
  · have hpushed : (s.distributor.consumeMessageContext c).pushed =
        (s.distributor.select c.linearKey).2.2.map fun i => (i, s.distributor.received c) := by
      rw [heq]
      split <;> rfl
    rw [hpushed]
    rcases Option.eq_none_or_eq_some (s.distributor.select c.linearKey).2.2 with hc | ⟨i, hi⟩
    · exact .inl ⟨by rw [hc]; rfl, .inr (hnone (hpush hc))⟩
    · exact .inr ⟨i, by rw [hi]; rfl, hi⟩

theorem Ordered.message (h : s.Ordered) (hgoes : s.stopped = false) {c : CommandContext}
    {frames : List Frame} (hframes : s.frames = .message c :: frames) :
    Ordered { s with
      distributor := (s.distributor.consumeMessageContext c).distributor
      frames
      stopped := (s.distributor.consumeMessageContext c).threw
      onTheWay := s.onTheWay ++ (s.distributor.consumeMessageContext c).pushed.toList } := by
  have hlocated := h.located hgoes
  have horder : ∀ k, idsOf k s.handled ++ idsOf k (s.onTheWay.map (·.2)) ++
      (idsOf k [c] ++ idsOf k (frames.filterMap Frame.context)) = idsOf k s.arrived := by
    intro k
    obtain ⟨rest, heq, hrest⟩ := h.order k
    rw [hrest hgoes, hframes] at heq
    rw [← heq, ← idsOf_cons]
    rfl
  refine ⟨fun hthrew => ?_, ?_, fun k => ?_⟩
  · have hnext := hlocated.message hframes hthrew
    rwa [← show (s.distributor.consumeMessageContext c).threw = false from hthrew] at hnext
  · intro e he e' he' k hk hk'
    have hnew : ∀ x ∈ (s.distributor.consumeMessageContext c).pushed.toList, x.2.linearKey = some k →
        c.linearKey = some k ∧ (s.distributor.select (some k)).2.2 = some x.1 := by
      intro x hx hkey
      rw [Option.mem_toList] at hx
      rcases hlocated.pushed_cases c with ⟨hnone, -⟩ | ⟨i, hsome, hi⟩
      · cases hnone.symm.trans hx
      · obtain rfl := Option.some.inj (hsome.symm.trans hx)
        rw [CommandDistributor.received_linearKey] at hkey
        exact ⟨hkey, hkey ▸ hi⟩
    have hconsumer : ∀ x ∈ s.onTheWay ++ (s.distributor.consumeMessageContext c).pushed.toList,
        x.2.linearKey = some k → c.linearKey = some k →
          (s.distributor.select (some k)).2.2 = some x.1 := by
      intro x hx hkey _
      rcases List.mem_append.1 hx with hx | hx
      · exact hlocated.select hx hkey
      · exact (hnew x hx hkey).2
    by_cases hc : c.linearKey = some k
    · exact Option.some.inj ((hconsumer e he hk hc).symm.trans (hconsumer e' he' hk' hc))
    · have hold : ∀ x ∈ s.onTheWay ++ (s.distributor.consumeMessageContext c).pushed.toList,
          x.2.linearKey = some k → x ∈ s.onTheWay := by
        intro x hx hkey
        rcases List.mem_append.1 hx with hx | hx
        · exact hx
        · exact absurd (hnew x hx hkey).1 hc
      exact h.together e (hold e he hk) e' (hold e' he' hk') k hk hk'
  · rcases hlocated.pushed_cases c with ⟨hnone, hthrew | hkey⟩ | ⟨i, hsome, -⟩
    · refine ⟨idsOf k [c] ++ idsOf k (frames.filterMap Frame.context), ?_,
        fun hfalse => by cases hthrew.symm.trans hfalse⟩
      rw [hnone, Option.toList_none, List.append_nil]
      exact horder k
    · refine ⟨_, ?_, fun _ => rfl⟩
      have hempty : idsOf k [c] = [] := idsOf_of_forall_ne (by simp [hkey])
      have hall := horder k
      rw [hempty, List.nil_append] at hall
      rw [hnone, Option.toList_none, List.append_nil]
      exact hall
    · refine ⟨_, ?_, fun _ => rfl⟩
      rw [hsome, Option.toList_some, List.map_append, idsOf_append, List.map_singleton,
        idsOf_received, ← horder k]
      simp only [List.append_assoc]

theorem Ordered.notification (h : s.Ordered) (hgoes : s.stopped = false) {id : String}
    {frames : List Frame} (hframes : s.frames = .notification id :: frames) :
    Ordered { s with
      distributor := (s.distributor.consumeHandledNotification id).distributor
      frames
      stopped := (s.distributor.consumeHandledNotification id).threw
      onTheWay := s.onTheWay ++ (s.distributor.consumeHandledNotification id).pushed.toList } := by
  obtain ⟨hthrew, hpushed, hnext⟩ := (h.located hgoes).notification hframes
  rw [hthrew, hpushed, Option.toList_none, List.append_nil]
  rw [List.append_nil] at hnext
  refine ⟨fun _ => hnext, h.together, fun k => ?_⟩
  obtain ⟨rest, heq, hrest⟩ := h.order k
  refine ⟨rest, heq, fun _ => ?_⟩
  rw [hrest hgoes, hframes]
  rfl

theorem Ordered.handle (h : s.Ordered) {i : Nat} {e : Nat × CommandContext}
    (he : s.onTheWay.find? (fun e => e.1 = i) = some e) :
    Ordered { s with
      onTheWay := s.onTheWay.eraseP fun e => e.1 = i
      notices := s.notices ++ [e.2.messageID]
      handled := s.handled ++ [e.2] } := by
  obtain ⟨hi, front, back, hsplit, hfront⟩ := List.find?_eq_some_iff_append.1 he
  have hfront : ∀ x ∈ front, ¬x.1 = i := fun x hx => by simpa using hfront x hx
  have herase : s.onTheWay.eraseP (fun e => e.1 = i) = front ++ back := by
    rw [hsplit, List.eraseP_append_right _ (by simpa using hfront)]
    simp [show e.1 = i by simpa using hi]
  have hmem : ∀ x ∈ front ++ back, x ∈ s.onTheWay := by
    intro x hx
    rw [hsplit]
    rcases List.mem_append.1 hx with hx | hx
    · exact List.mem_append_left _ hx
    · exact List.mem_append_right _ (List.mem_cons_of_mem _ hx)
  rw [herase]
  refine ⟨fun hgoes => (h.located hgoes).handle hsplit,
    fun x hx x' hx' => h.together x (hmem x hx) x' (hmem x' hx'), fun k => ?_⟩
  obtain ⟨rest, heq, hrest⟩ := h.order k
  refine ⟨rest, ?_, hrest⟩
  rw [← heq, hsplit]
  simp only [idsOf_append, List.map_append, List.map_cons]
  by_cases hk : e.2.linearKey = some k
  · -- the commands before it are for other consumers, and have other keys
    have hnone : idsOf k (front.map (·.2)) = [] := by
      refine idsOf_of_forall_ne fun c hc hkey => ?_
      obtain ⟨x, hx, rfl⟩ := List.mem_map.1 hc
      have hxi := h.together x (hmem x (List.mem_append_left _ hx)) e (by simp [hsplit]) k hkey hk
      exact hfront x hx (hxi.trans (by simpa using hi))
    rw [idsOf_cons k e.2 (back.map (·.2)), hnone]
    simp only [List.nil_append, List.append_assoc]
  · have hnone : idsOf k [e.2] = [] := idsOf_of_forall_ne (by simpa using hk)
    rw [idsOf_cons k e.2 (back.map (·.2)), hnone]
    simp

theorem Ordered.step (h : s.Ordered) {a : Action} (hs : s.step a = some s') : s'.Ordered := by
  cases a with
  | arrive c =>
    cases hs
    refine ⟨fun hgoes => (h.located hgoes).arrive c, h.together, fun k => ?_⟩
    obtain ⟨rest, heq, hrest⟩ := h.order k
    refine ⟨rest ++ idsOf k [c], ?_, fun hgoes => ?_⟩
    · rw [idsOf_append, ← heq]
      simp only [List.append_assoc]
    · rw [hrest hgoes, List.filterMap_append, idsOf_append]
      rfl
  | consumeMessage =>
    simp only [System.step] at hs
    split at hs
    · next frame frames hgoes hframes =>
      cases hs
      cases frame with
      | message c => exact h.message hgoes hframes
      | notification id => exact h.notification hgoes hframes
    · cases hs
  | handle i =>
    obtain ⟨e, he, rfl⟩ := Option.map_eq_some_iff.1 hs
    exact h.handle he
  | notify n =>
    obtain ⟨id, hid, rfl⟩ := Option.map_eq_some_iff.1 hs
    refine ⟨fun hgoes => (h.located hgoes).notify hid, h.together, fun k => ?_⟩
    obtain ⟨rest, heq, hrest⟩ := h.order k
    refine ⟨rest, heq, fun hgoes => ?_⟩
    have hnone : [Frame.notification id].filterMap Frame.context = [] := rfl
    rw [hrest hgoes, List.filterMap_append, hnone, List.append_nil]

/-- In every run: of the commands with one key, those that have been handled are the first ones that
arrived, in the order in which they arrived. -/
theorem handled_in_order {receiveEndPoint : Option String} {targetEndPoints : Nat}
    {actions : List Action}
    (hrun : run step (init receiveEndPoint targetEndPoints) actions = some s) (k : String) :
    idsOf k s.handled <+: idsOf k s.arrived := by
  have h : s.Ordered := run_invariant Ordered (fun _ _ _ h hs => h.step hs)
    (ordered_init receiveEndPoint targetEndPoints) hrun
  obtain ⟨rest, heq, -⟩ := h.order k
  rw [← heq, List.append_assoc]
  exact List.prefix_append _ _

/-- Two commands of one key, and one of another key: the second consumer is faster. -/
def twoKeys : List Action :=
  [.arrive ⟨"1", some "a", none⟩, .arrive ⟨"2", some "b", none⟩, .arrive ⟨"3", some "a", none⟩,
    .consumeMessage, .consumeMessage, .consumeMessage, .handle 1, .handle 0, .notify 0,
    .consumeMessage]

theorem handled_in_order_twoKeys : ∃ s, run step (init (some "tcp") 2) twoKeys = some s ∧
    s.handled.map (·.messageID) = ["2", "1"] ∧ idsOf "a" s.handled <+: idsOf "a" s.arrived := by
  have hfacts : (run step (init (some "tcp") 2) twoKeys).map
      (fun s => s.handled.map (·.messageID)) = some ["2", "1"] := by decide +kernel
  obtain ⟨s, hrun, hs⟩ := Option.map_eq_some_iff.1 hfacts
  exact ⟨s, hrun, hs, handled_in_order hrun "a"⟩

/-! ## What ends the loop -/

/-- A command that is taken is not on the books, and there is a consumer or the command has no
key. -/
def Accepted (s : System) : Action → Prop
  | .consumeMessage => ∀ c frames, s.frames = .message c :: frames →
      s.distributor.commandStateQueue.lookup c.messageID = none ∧
        (c.linearKey ≠ none → s.distributor.commandConsumers ≠ [])
  | _ => True

theorem Ordered.stopped_iff (h : s.Ordered) (hgoes : s.stopped = false) {a : Action}
    (hs : s.step a = some s') : s'.stopped = false ↔ Accepted s a := by
  cases a with
  | arrive c =>
    cases hs
    exact iff_of_true hgoes trivial
  | consumeMessage =>
    simp only [System.step] at hs
    split at hs
    · next frame frames _ hframes =>
      cases hs
      cases frame with
      | message c =>
        refine ((h.located hgoes).booked.consumeMessageContext_threw c).trans ?_
        constructor
        · intro haccepted c' frames' hframes'
          obtain ⟨hc, -⟩ := List.cons.inj (hframes.symm.trans hframes')
          obtain rfl := Frame.message.inj hc
          exact haccepted
        · intro haccepted
          exact haccepted c frames hframes
      | notification id =>
        refine iff_of_true ((h.located hgoes).notification hframes).1 fun c frames' hframes' => ?_
        cases hframes.symm.trans hframes'
    · cases hs
  | handle i =>
    obtain ⟨e, -, rfl⟩ := Option.map_eq_some_iff.1 hs
    exact iff_of_true hgoes trivial
  | notify n =>
    obtain ⟨id, -, rfl⟩ := Option.map_eq_some_iff.1 hs
    exact iff_of_true hgoes trivial

/-- The loop does not begin again. -/
theorem stopped_of_step {a : Action} (hs : s.step a = some s') (hgoes : s'.stopped = false) :
    s.stopped = false := by
  cases a with
  | arrive c =>
    cases hs
    exact hgoes
  | consumeMessage =>
    simp only [System.step] at hs
    split at hs
    · next hstopped _ => exact hstopped
    · cases hs
  | handle i =>
    obtain ⟨e, -, rfl⟩ := Option.map_eq_some_iff.1 hs
    exact hgoes
  | notify n =>
    obtain ⟨id, -, rfl⟩ := Option.map_eq_some_iff.1 hs
    exact hgoes

theorem stopped_of_run {actions : List Action} (hrun : run step s actions = some s')
    (hgoes : s'.stopped = false) : s.stopped = false := by
  induction actions generalizing s with
  | nil =>
    cases hrun
    exact hgoes
  | cons a actions ih =>
    obtain ⟨t, ht, hrest⟩ := run_cons_eq_some.1 hrun
    exact stopped_of_step ht (ih hrest)

/-- Where each command is notified once: the loop still goes on at the end of a run exactly if every
command that was taken was not on the books, and had no key when there were no consumers. -/
theorem goes_on_iff {receiveEndPoint : Option String} {targetEndPoints : Nat}
    {actions : List Action}
    (hrun : run step (init receiveEndPoint targetEndPoints) actions = some s) :
    s.stopped = false ↔ Along step Accepted (init receiveEndPoint targetEndPoints) actions := by
  rw [← throughout_iff_along (K := fun s : System => s.stopped = false) Ordered
    (fun _ _ _ h _ hs => h.step hs) (fun _ _ _ h _ hgoes hs => h.stopped_iff hgoes hs)
    (ordered_init receiveEndPoint targetEndPoints) rfl
    (Along.of_forall (P := fun _ _ => True) (fun _ _ => trivial) _ _) hrun]
  constructor
  · rintro hgoes bs t ⟨rest, rfl⟩ hbs
    obtain ⟨t', ht', hrest⟩ := run_append_eq_some.1 hrun
    obtain rfl := Option.some.inj (hbs.symm.trans ht')
    exact stopped_of_run hrest hgoes
  · intro hthroughout
    exact hthroughout actions s (List.prefix_refl actions) hrun

/-- A command that arrives twice ends the loop. -/
theorem goes_on_iff_twice : ∃ s,
    run step (init (some "tcp") 1) [.arrive ⟨"1", none, none⟩, .consumeMessage,
        .arrive ⟨"1", none, none⟩, .consumeMessage] = some s ∧
      ¬Along step Accepted (init (some "tcp") 1) [.arrive ⟨"1", none, none⟩, .consumeMessage,
        .arrive ⟨"1", none, none⟩, .consumeMessage] := by
  have hfacts : (run step (init (some "tcp") 1) [.arrive ⟨"1", none, none⟩, .consumeMessage,
      .arrive ⟨"1", none, none⟩, .consumeMessage]).map (·.stopped) = some true := by decide +kernel
  obtain ⟨s, hrun, hs⟩ := Option.map_eq_some_iff.1 hfacts
  refine ⟨s, hrun, fun haccepted => ?_⟩
  cases hs.symm.trans ((goes_on_iff hrun).2 haccepted)

/-! ## When all is done -/

/-- At the end of every run whose commands have all been handled and notified, and that has not
ended the loop, the payloads of the consumers are `0` and no key has a consumer. -/
theorem payloads_return {receiveEndPoint : Option String} {targetEndPoints : Nat}
    {actions : List Action}
    (hrun : run step (init receiveEndPoint targetEndPoints) actions = some s)
    (hgoes : s.stopped = false) (hdone : s.outstanding = []) :
    (∀ c ∈ s.distributor.commandConsumers, c.payload = 0) ∧ s.distributor.linearCommandStates = ∅ := by
  have h : s.Located := (run_invariant Ordered (fun _ _ _ h hs => h.step hs)
    (ordered_init receiveEndPoint targetEndPoints) hrun).located hgoes
  have hnone : ∀ id state, s.distributor.commandStateQueue.lookup id = some state →
      state.commandConsumer = none := by
    intro id state hstate
    by_contra hconsumer
    have hmem := (h.known id).2 ⟨state, hstate, hconsumer⟩
    rw [hdone] at hmem
    cases hmem
  have hzero : ∀ f : String → CommandState → Int,
      (∀ id state, s.distributor.commandStateQueue.lookup id = some state → f id state = 0) →
        s.distributor.commandStateQueue.total f = 0 :=
    fun f hf => (AList.total_congr hf).trans AList.total_zero
  constructor
  · intro c hc
    obtain ⟨i, hi⟩ := List.mem_iff_getElem?.1 hc
    rw [h.booked.payload i c hi]
    refine hzero _ fun id state hstate => ?_
    simp [CommandDistributor.load, hnone id state hstate]
  · refine AList.ext (List.eq_nil_iff_forall_not_mem.2 fun e he => ?_)
    obtain ⟨x, hx, -, hpos⟩ := h.booked.states e.1 e.2 (AList.mem_lookup_iff.2 he)
    have hpos := hpos.resolve_right fun hsome => by cases hsome
    rw [h.booked.linearPayload e.2 x hx, hzero _ fun id state hstate => ?_] at hpos
    · omega
    · simp [CommandDistributor.linearLoad,
        h.booked.pushed id state hstate (hnone id state hstate)]

theorem payloads_return_twoKeys : ∃ s,
    run step (init (some "tcp") 2) (twoKeys ++ [.handle 0, .notify 0, .notify 0, .consumeMessage,
      .consumeMessage]) = some s ∧ s.distributor.linearCommandStates = ∅ := by
  have hfacts : (run step (init (some "tcp") 2) (twoKeys ++ [.handle 0, .notify 0, .notify 0,
      .consumeMessage, .consumeMessage])).map (fun s => (s.stopped, s.outstanding)) =
        some (false, []) := by decide +kernel
  obtain ⟨s, hrun, hs⟩ := Option.map_eq_some_iff.1 hfacts
  obtain ⟨hgoes, hdone⟩ := Prod.mk.inj hs
  exact ⟨s, hrun, (payloads_return hrun hgoes hdone).2⟩

end System

end IFramework.ZeroMQ
