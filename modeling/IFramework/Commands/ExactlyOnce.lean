import IFramework.Commands.CommandProcessor
import Mathlib.Data.List.Nodup

/-!
# A command takes effect at most once

A row of the table `Commands` and the writes of a handler are committed together or not at all, and
the primary key admits one row for each command. So the deliveries of a command race for its row:
the one that inserts it commits its writes, if its handler has returned, and replies; the others fail
on the primary key, once in `SaveCommandAsync` and once more in `SaveFailedCommandAsync`, and commit
nothing. A delivery that comes later finds the row.
-/

namespace IFramework.Commands

open MessageStores

section Database

variable {T W P R : Type}

/-- The writes of a handler are inserted one after the other. -/
theorem saveChanges_writes (d : Nat) (db : Database T W) (ws : List W) (rest : List (Entity T W)) :
    db.saveChanges d (ws.map .write ++ rest) =
      Database.saveChanges d { db with writes := db.writes ++ ws.map fun w => (d, w) } rest := by
  induction ws generalizing db with
  | nil => simp
  | cons w ws ih =>
    have hcons := ih { db with writes := db.writes ++ [(d, w)] }
    simpa [Database.saveChanges, Database.insert] using hcons

/-- A transaction with the writes of a handler and its command. -/
theorem saveChanges_command (d : Nat) (db : Database T W) (ws : List W) (c : Command T) :
    db.saveChanges d (ws.map .write ++ [.command c]) =
      if c.id ∈ db.commands.map (fun row => row.2.id) then none
      else some
        { commands := db.commands ++ [(d, c)]
          writes := db.writes ++ ws.map fun w => (d, w) } := by
  rw [saveChanges_writes]
  have hany : db.commands.any (fun row => row.2.id = c.id) = true ↔
      c.id ∈ db.commands.map (fun row => row.2.id) := by
    simp
  simp only [Database.saveChanges, List.foldlM_cons, List.foldlM_nil, Database.insert, hany]
  split <;> rfl

theorem saveChanges_commands_mono {d : Nat} {db db' : Database T W} {tracked : List (Entity T W)}
    (hsaved : db.saveChanges d tracked = some db') {row : Nat × Command T}
    (hrow : row ∈ db.commands) : row ∈ db'.commands := by
  unfold Database.saveChanges at hsaved
  induction tracked generalizing db with
  | nil =>
    cases hsaved
    exact hrow
  | cons entity tracked ih =>
    rw [List.foldlM_cons] at hsaved
    obtain ⟨db₁, hinsert, hrest⟩ := Option.bind_eq_some_iff.1 hsaved
    refine ih hrest ?_
    cases entity with
    | command c =>
      simp only [Database.insert] at hinsert
      split at hinsert
      · cases hinsert
      · cases hinsert
        exact List.mem_append_left _ hrow
    | write w =>
      cases hinsert
      exact hrow

theorem getCommandHandledInfoAsync_of_mem {db : Database T W}
    (hunique : (db.commands.map fun row => row.2.id).Nodup) {row : Nat × Command T}
    (hrow : row ∈ db.commands) : getCommandHandledInfoAsync db row.2.id = some row.2 := by
  unfold getCommandHandledInfoAsync
  cases hfind : db.commands.find? fun row' => row'.2.id = row.2.id with
  | none =>
    have hno := List.find?_eq_none.1 hfind row hrow
    simp at hno
  | some row' =>
    have hid : row'.2.id = row.2.id := by simpa using List.find?_some hfind
    rw [List.inj_on_of_nodup_map hunique (List.mem_of_find?_eq_some hfind) hrow hid]
    rfl

end Database

/-! ## What one action can do -/

section Transitions

variable {T W P R : Type} {json : Json T P R} {hasHandler : Nat → Bool} {violation : String}

/-- The ways in which an action can succeed, with the guard of each branch of `step` and the state it
leads to. -/
inductive Transition (json : Json T P R) (s : State T W P R) : Action W P R → State T W P R → Prop
  | deliver (processor : Nat) (context : CommandContext) :
      Transition json s (.deliver processor context)
        { s.setDelivery s.deliveryCount ⟨processor, context, [], .begin⟩ with
          deliveryCount := s.deliveryCount + 1 }
  | lookup {d : Nat} {point : Point P R} (hpoint : (s.deliveries d).point = .begin)
      (hnext : point = .handle ∨ ∃ messages, point = .ended messages) :
      Transition json s (.lookup d) (s.setDelivery d { s.deliveries d with point := point })
  | handle {d : Nat} {run : HandlerRun W P R} (hpoint : (s.deliveries d).point = .handle) :
      Transition json s (.handle d run) (s.setDelivery d { s.deliveries d with
        tracked := (s.deliveries d).tracked ++ run.writes.map .write
        point :=
          match run.thrown with
          | some e => .fail e run.bus
          | none => .save run.reply run.bus })
  | save {d : Nat} {reply : Option (Obj P R)} {bus : EventBus (Event P) (Obj P R)}
      {database : Database T W} (hpoint : (s.deliveries d).point = .save reply bus)
      (hsaved : s.database.saveChanges d (saveCommandAsync json (s.deliveries d).tracked
        (s.deliveries d).context.messageId reply) = some database) :
      Transition json s (.save d) ({ s with database := database }.setDelivery d
        { s.deliveries d with
          tracked := []
          point := .ended (handledMessages (s.deliveries d).context reply bus) })
  | saveFails {a : Action W P R} {d : Nat} {reply : Option (Obj P R)}
      {bus : EventBus (Event P) (Obj P R)} {e : Exn P} {tracked : List (Entity T W)}
      (haction : a = .save d ∨ a = .saveFails d e)
      (hpoint : (s.deliveries d).point = .save reply bus) :
      Transition json s a (s.setDelivery d { s.deliveries d with
        tracked := tracked
        point := .fail e bus })
  | fail {d : Nat} {e : Exn P} {bus : EventBus (Event P) (Obj P R)} {database : Database T W}
      (hpoint : (s.deliveries d).point = .fail e bus)
      (hsaved : s.database.saveChanges d (saveFailedCommandAsync json rollback
        (s.deliveries d).context.messageId e) = some database) :
      Transition json s (.fail d) ({ s with database := database }.setDelivery d
        { s.deliveries d with
          tracked := []
          point := .ended (failedMessages (s.deliveries d).context e bus) })
  | leave {a : Action W P R} {d : Nat} {e : Exn P} {bus : EventBus (Event P) (Obj P R)}
      {tracked : List (Entity T W)} (haction : a = .fail d ∨ a = .failFails d)
      (hpoint : (s.deliveries d).point = .fail e bus) :
      Transition json s a (s.setDelivery d { s.deliveries d with
        tracked := tracked
        point := .ended [] })

/-- Every action that succeeds is one of the transitions. -/
theorem Transition.of_step {s s' : State T W P R} {a : Action W P R}
    (hstep : step json hasHandler violation s a = some s') : Transition json s a s' := by
  cases a with
  | deliver processor context =>
    cases hstep
    exact .deliver processor context
  | lookup d =>
    simp only [step] at hstep
    split at hstep
    next hpoint =>
      split at hstep
      · cases hstep
        exact .lookup hpoint (.inr ⟨_, rfl⟩)
      · split at hstep
        · cases hstep
          exact .lookup hpoint (.inl rfl)
        · cases hstep
          exact .lookup hpoint (.inr ⟨_, rfl⟩)
    next => cases hstep
  | handle d run =>
    simp only [step] at hstep
    split at hstep
    next hpoint =>
      cases hstep
      exact .handle hpoint
    next => cases hstep
  | save d =>
    simp only [step] at hstep
    split at hstep
    next reply bus hpoint =>
      split at hstep
      next database hsaved =>
        cases hstep
        exact .save hpoint hsaved
      next =>
        cases hstep
        exact .saveFails (.inl rfl) hpoint
    next => cases hstep
  | saveFails d e =>
    simp only [step] at hstep
    split at hstep
    next reply bus hpoint =>
      cases hstep
      exact .saveFails (.inr rfl) hpoint
    next => cases hstep
  | fail d =>
    simp only [step] at hstep
    split at hstep
    next e bus hpoint =>
      split at hstep
      next database hsaved =>
        cases hstep
        exact .fail hpoint hsaved
      next =>
        cases hstep
        exact .leave (.inl rfl) hpoint
    next => cases hstep
  | failFails d =>
    simp only [step] at hstep
    split at hstep
    next e bus hpoint =>
      cases hstep
      exact .leave (.inr rfl) hpoint
    next => cases hstep

end Transitions

/-! ## The invariant -/

section Invariant

variable {T W P R : Type} {json : Json T P R} {hasHandler : Nat → Bool} {violation : String}
  {s s' : State T W P R} {d : Nat}

/-- The rows belong to deliveries that have ended and have replied what the row holds, and every
committed write belongs to a row. -/
structure Consistent (json : Json T P R) (s : State T W P R) : Prop where
  unique : (s.database.commands.map fun row => row.2.id).Nodup
  rows : ∀ row ∈ s.database.commands,
    row.2.id = (s.deliveries row.1).context.messageId ∧
      ∃ rest, (s.deliveries row.1).point =
        .ended (replyMessages (s.deliveries row.1).context (row.2.reply json) ++ rest)
  writes : ∀ write ∈ s.database.writes, ∃ c, (write.1, c) ∈ s.database.commands
  untouched : ∀ d, (s.deliveries d).point = .begin ∨ (s.deliveries d).point = .handle →
    (s.deliveries d).tracked = []
  tracked : ∀ d reply bus, (s.deliveries d).point = .save reply bus →
    ∃ ws : List W, (s.deliveries d).tracked = ws.map .write
  absent : ∀ d, s.deliveryCount ≤ d → s.deliveries d = .none
  writers : ∀ row ∈ s.database.commands, row.1 < s.deliveryCount

theorem Consistent.init : Consistent json (.init : State T W P R) where
  unique := List.nodup_nil
  rows := fun row hrow => by simp [State.init] at hrow
  writes := fun write hwrite => by simp [State.init] at hwrite
  untouched := fun d _ => rfl
  tracked := fun d reply bus h => by simp [State.init, Delivery.none] at h
  absent := fun d _ => rfl
  writers := fun row hrow => by simp [State.init] at hrow

theorem Consistent.lt_deliveryCount (h : Consistent json s)
    (hpoint : ∀ messages, (s.deliveries d).point ≠ .ended messages) : d < s.deliveryCount := by
  by_contra hle
  have habsent := h.absent d (Nat.le_of_not_lt hle)
  exact hpoint [] (by rw [habsent]; rfl)

theorem Consistent.setDelivery (h : Consistent json s) {delivery : Delivery T W P R}
    (hpoint : ∀ messages, (s.deliveries d).point ≠ .ended messages)
    (huntouched : delivery.point = .begin ∨ delivery.point = .handle → delivery.tracked = [])
    (htracked : ∀ reply bus, delivery.point = .save reply bus →
      ∃ ws : List W, delivery.tracked = ws.map .write) :
    Consistent json (s.setDelivery d delivery) := by
  have hne : ∀ row ∈ s.database.commands, row.1 ≠ d := by
    rintro row hrow rfl
    obtain ⟨-, rest, hended⟩ := h.rows row hrow
    exact hpoint _ hended
  have hlt := h.lt_deliveryCount hpoint
  refine ⟨h.unique, ?_, h.writes, ?_, ?_, ?_, h.writers⟩
  · intro row hrow
    simpa [hne row hrow] using h.rows row hrow
  · intro d' hd'
    by_cases heq : d' = d
    · subst heq
      simpa using huntouched (by simpa using hd')
    · simpa [heq] using h.untouched d' (by simpa [heq] using hd')
  · intro d' reply bus hd'
    by_cases heq : d' = d
    · subst heq
      simpa using htracked reply bus (by simpa using hd')
    · simpa [heq] using h.tracked d' reply bus (by simpa [heq] using hd')
  · intro d' hd'
    have heq : d' ≠ d := by
      rintro rfl
      exact absurd hlt (Nat.not_lt.2 hd')
    simpa [heq] using h.absent d' hd'

theorem Consistent.commit (h : Consistent json s) {delivery : Delivery T W P R}
    (hpoint : ∀ messages, (s.deliveries d).point ≠ .ended messages)
    {c : Command T} {ws : List W}
    (hid : c.id = delivery.context.messageId)
    (hnew : c.id ∉ s.database.commands.map fun row => row.2.id)
    (hreply : ∃ rest, delivery.point =
      .ended (replyMessages delivery.context (c.reply json) ++ rest)) :
    Consistent json
      ({ s with
        database :=
          { commands := s.database.commands ++ [(d, c)]
            writes := s.database.writes ++ ws.map fun w => (d, w) } }.setDelivery d delivery) := by
  obtain ⟨rest, hended⟩ := hreply
  have hset : Consistent json (s.setDelivery d delivery) :=
    h.setDelivery hpoint (by simp [hended]) (by simp [hended])
  have hlt := h.lt_deliveryCount hpoint
  refine ⟨?_, ?_, ?_, hset.untouched, hset.tracked, hset.absent, ?_⟩
  · rw [List.map_append, List.nodup_append]
    refine ⟨h.unique, List.nodup_singleton _, ?_⟩
    rintro id hmem id' hid' rfl
    rw [List.map_singleton, List.mem_singleton] at hid'
    exact hnew (hid' ▸ hmem)
  · intro row hrow
    rcases List.mem_append.1 hrow with hrow | hrow
    · exact hset.rows row hrow
    · rw [List.mem_singleton.1 hrow]
      simpa using ⟨hid, rest, hended⟩
  · intro write hwrite
    rcases List.mem_append.1 hwrite with hwrite | hwrite
    · obtain ⟨c', hc'⟩ := h.writes write hwrite
      exact ⟨c', List.mem_append_left _ hc'⟩
    · obtain ⟨w, -, rfl⟩ := List.mem_map.1 hwrite
      exact ⟨c, by simp⟩
  · intro row hrow
    rcases List.mem_append.1 hrow with hrow | hrow
    · exact h.writers row hrow
    · rw [List.mem_singleton.1 hrow]
      exact hlt

theorem replyMessages_reply_new (json : Json T P R) (context : CommandContext)
    (messageId : String) (result : Option (Obj P R)) :
    replyMessages context ((Command.new json messageId result).reply json) =
      replyMessages context result := by
  rw [Command.reply_new]
  cases result with
  | none => rfl
  | some o => simp only [replyMessages, Option.map_some, Command.wrapMessage_normalize]

/-- The reply comes first among the messages of a command that has been handled. -/
theorem exists_handledMessages_eq (context : CommandContext) (reply : Option (Obj P R))
    (bus : EventBus (Event P) (Obj P R)) :
    ∃ rest, handledMessages context reply bus = replyMessages context reply ++ rest := by
  simp only [handledMessages, List.append_assoc]
  exact ⟨_, rfl⟩

/-- The reply comes first among the messages of a command that has failed. -/
theorem exists_failedMessages_eq (context : CommandContext) (e : Exn P)
    (bus : EventBus (Event P) (Obj P R)) :
    ∃ rest, failedMessages context e bus = replyMessages context (some (.exn e)) ++ rest := by
  simp only [failedMessages, List.append_assoc]
  exact ⟨_, rfl⟩

theorem Consistent.deliver (h : Consistent json s) (processor : Nat) (context : CommandContext) :
    Consistent json { s.setDelivery s.deliveryCount ⟨processor, context, [], .begin⟩ with
      deliveryCount := s.deliveryCount + 1 } := by
  have hne : ∀ row ∈ s.database.commands, row.1 ≠ s.deliveryCount :=
    fun row hrow => Nat.ne_of_lt (h.writers row hrow)
  refine ⟨h.unique, ?_, h.writes, ?_, ?_, ?_, ?_⟩
  · intro row hrow
    simpa [hne row hrow] using h.rows row hrow
  · intro d' hd'
    by_cases heq : d' = s.deliveryCount
    · subst heq
      simp
    · simpa [heq] using h.untouched d' (by simpa [heq] using hd')
  · intro d' reply bus hd'
    have heq : d' ≠ s.deliveryCount := by
      rintro rfl
      simp at hd'
    simpa [heq] using h.tracked d' reply bus (by simpa [heq] using hd')
  · intro d' hd'
    have hlt : s.deliveryCount < d' := hd'
    simpa [Nat.ne_of_gt hlt] using h.absent d' (Nat.le_of_lt hlt)
  · intro row hrow
    exact Nat.lt_succ_of_lt (h.writers row hrow)

/-- The handler has returned, and its transaction commits. -/
theorem Consistent.save (h : Consistent json s) {reply : Option (Obj P R)}
    {bus : EventBus (Event P) (Obj P R)} {database : Database T W}
    (hpoint : (s.deliveries d).point = .save reply bus)
    (hsaved : s.database.saveChanges d (saveCommandAsync json (s.deliveries d).tracked
      (s.deliveries d).context.messageId reply) = some database) :
    Consistent json ({ s with database := database }.setDelivery d { s.deliveries d with
      tracked := []
      point := .ended (handledMessages (s.deliveries d).context reply bus) }) := by
  have hopen : ∀ messages, (s.deliveries d).point ≠ .ended messages := by simp [hpoint]
  obtain ⟨ws, htracked⟩ := h.tracked d reply bus hpoint
  rw [saveCommandAsync, htracked, saveChanges_command] at hsaved
  split at hsaved
  · cases hsaved
  next hnew =>
    cases hsaved
    obtain ⟨rest, hmessages⟩ := exists_handledMessages_eq (s.deliveries d).context reply bus
    refine h.commit hopen rfl hnew ⟨rest, ?_⟩
    rw [replyMessages_reply_new, hmessages]

/-- The handler has failed, and the failure is recorded. -/
theorem Consistent.fail (h : Consistent json s) {e : Exn P}
    {bus : EventBus (Event P) (Obj P R)} {database : Database T W}
    (hpoint : (s.deliveries d).point = .fail e bus)
    (hsaved : s.database.saveChanges d (saveFailedCommandAsync json rollback
      (s.deliveries d).context.messageId e) = some database) :
    Consistent json ({ s with database := database }.setDelivery d { s.deliveries d with
      tracked := []
      point := .ended (failedMessages (s.deliveries d).context e bus) }) := by
  have hopen : ∀ messages, (s.deliveries d).point ≠ .ended messages := by simp [hpoint]
  -- nothing of the handler is tracked after `Rollback`
  have hsave := saveChanges_command d s.database ([] : List W)
    { Command.new json (s.deliveries d).context.messageId (some (.exn e)) with
      status := .failed }
  rw [List.map_nil] at hsave
  rw [saveFailedCommandAsync, rollback, hsave] at hsaved
  split at hsaved
  · cases hsaved
  next hnew =>
    cases hsaved
    obtain ⟨rest, hmessages⟩ := exists_failedMessages_eq (s.deliveries d).context e bus
    have hreply := replyMessages_reply_new json (s.deliveries d).context
      (s.deliveries d).context.messageId (some (.exn e))
    refine h.commit hopen rfl hnew ⟨rest, ?_⟩
    rw [hmessages, ← hreply]
    rfl

theorem Consistent.step (h : Consistent json s) {a : Action W P R}
    (hstep : Commands.step json hasHandler violation s a = some s') : Consistent json s' := by
  cases Transition.of_step hstep with
  | deliver processor context => exact h.deliver processor context
  | @lookup d point hpoint hnext =>
    have htracked := h.untouched d (.inl hpoint)
    refine h.setDelivery (by simp [hpoint]) (fun _ => htracked) ?_
    rintro reply bus rfl
    rcases hnext with hnext | ⟨messages, hnext⟩
    · cases hnext
    · cases hnext
  | @handle d run hpoint =>
    have htracked := h.untouched d (.inr hpoint)
    refine h.setDelivery (by simp [hpoint]) ?_ ?_
    · cases run.thrown <;> simp
    · intro reply bus _
      exact ⟨run.writes, by simp [htracked]⟩
  | save hpoint hsaved => exact h.save hpoint hsaved
  | saveFails _ hpoint => exact h.setDelivery (by simp [hpoint]) (by simp) (by simp)
  | fail hpoint hsaved => exact h.fail hpoint hsaved
  | leave _ hpoint => exact h.setDelivery (by simp [hpoint]) (by simp) (by simp)

end Invariant

/-! ## Deliveries that come after the row -/

section Late

variable {T W P R : Type} {json : Json T P R} {hasHandler : Nat → Bool} {violation : String}
  {s s' : State T W P R} {d : Nat}

/-- The delivery that an action is a step of. -/
def Action.delivery? : Action W P R → Option Nat
  | .deliver _ _ => none
  | .lookup d | .handle d _ | .save d | .saveFails d _ | .fail d | .failFails d => some d

theorem setDelivery_frame (delivery : Delivery T W P R) {database : Database T W}
    (hrows : ∀ row ∈ s.database.commands, row ∈ database.commands) {a : Action W P R}
    (ha : a.delivery? = some d) :
    (∀ row ∈ s.database.commands,
        row ∈ ({ s with database := database }.setDelivery d delivery).database.commands) ∧
      s.deliveryCount ≤ ({ s with database := database }.setDelivery d delivery).deliveryCount ∧
      ∀ d' < s.deliveryCount, a.delivery? ≠ some d' →
        ({ s with database := database }.setDelivery d delivery).deliveries d' =
          s.deliveries d' := by
  refine ⟨hrows, Nat.le_refl _, ?_⟩
  intro d' _ hne
  have hd' : d' ≠ d := by
    rintro rfl
    exact hne ha
  simp [hd']

/-- An action leaves the rows where they are, and touches no other delivery. -/
theorem step_frame {a : Action W P R} (hstep : step json hasHandler violation s a = some s') :
    (∀ row ∈ s.database.commands, row ∈ s'.database.commands) ∧
      s.deliveryCount ≤ s'.deliveryCount ∧
      ∀ d < s.deliveryCount, a.delivery? ≠ some d → s'.deliveries d = s.deliveries d := by
  cases Transition.of_step hstep with
  | deliver processor context =>
    refine ⟨fun row hrow => hrow, Nat.le_succ _, ?_⟩
    intro d hd _
    simp [Nat.ne_of_lt hd]
  | lookup hpoint hnext => exact setDelivery_frame _ (fun _ hrow => hrow) rfl
  | handle hpoint => exact setDelivery_frame _ (fun _ hrow => hrow) rfl
  | save hpoint hsaved =>
    exact setDelivery_frame _ (fun _ => saveChanges_commands_mono hsaved) rfl
  | saveFails haction hpoint =>
    refine setDelivery_frame _ (fun _ hrow => hrow) ?_
    rcases haction with rfl | rfl
    · rfl
    · rfl
  | fail hpoint hsaved =>
    exact setDelivery_frame _ (fun _ => saveChanges_commands_mono hsaved) rfl
  | leave haction hpoint =>
    refine setDelivery_frame _ (fun _ hrow => hrow) ?_
    rcases haction with rfl | rfl
    · rfl
    · rfl

/-- A delivery of a command whose row is present: it has yet to look the command up, or has replied
what the row holds. -/
structure Late (json : Json T P R) (d : Nat) (context : CommandContext) (row : Nat × Command T)
    (s : State T W P R) : Prop where
  consistent : Consistent json s
  present : row ∈ s.database.commands
  made : d < s.deliveryCount
  context_eq : (s.deliveries d).context = context
  point : (s.deliveries d).point = .begin ∨
    (s.deliveries d).point = .ended (replyMessages context (row.2.reply json))

variable {context : CommandContext} {row : Nat × Command T}

theorem Late.lookup (h : Late json d context row s) (hid : context.messageId = row.2.id)
    (hpoint : (s.deliveries d).point = .begin) :
    step json hasHandler violation s (.lookup d) =
      some (s.setDelivery d { s.deliveries d with
        point := .ended (replyMessages context (row.2.reply json)) }) := by
  have hfound := getCommandHandledInfoAsync_of_mem h.consistent.unique h.present
  simp only [step, hpoint, h.context_eq, hid, hfound]

theorem Late.step (hid : context.messageId = row.2.id) (h : Late json d context row s)
    {a : Action W P R} (hstep : Commands.step json hasHandler violation s a = some s') :
    Late json d context row s' ∧ ∀ run, a ≠ .handle d run := by
  obtain ⟨hrows, hcount, hother⟩ := step_frame hstep
  have hconsistent := h.consistent.step hstep
  have hmade := Nat.lt_of_lt_of_le h.made hcount
  by_cases hd : a.delivery? = some d
  · -- a step of the delivery itself: only the lookup is enabled
    cases a with
    | lookup d' =>
      cases hd
      have hpoint : (s.deliveries d).point = .begin := by
        rcases h.point with hpoint | hpoint
        · exact hpoint
        · simp [Commands.step, hpoint] at hstep
      rw [h.lookup hid hpoint] at hstep
      cases hstep
      exact ⟨⟨hconsistent, hrows row h.present, hmade, by simp [h.context_eq], by simp⟩,
        fun run heq => by cases heq⟩
    | deliver processor context => cases hd
    | _ =>
      cases hd
      rcases h.point with hpoint | hpoint <;> simp [Commands.step, hpoint] at hstep
  · have hsame := hother d h.made hd
    refine ⟨⟨hconsistent, hrows row h.present, hmade, ?_, ?_⟩, ?_⟩
    · rw [hsame]
      exact h.context_eq
    · rw [hsame]
      exact h.point
    · rintro run rfl
      exact hd rfl

end Late

/-! ## Every run -/

section Runs

variable {T W P R : Type} (json : Json T P R) (hasHandler : Nat → Bool) (violation : String)
  {as : List (Action W P R)} {s : State T W P R}

theorem consistent_of_run (hrun : Machine.run (step json hasHandler violation) .init as = some s) :
    Consistent json s :=
  Machine.run_invariant (Consistent json) (fun _ _ _ h hstep => h.step hstep) .init hrun

/-- Exactly-once effect and stable reply. In every interleaving of any deliveries to any processors,
with any outcome of each run of a handler: a command has at most one row; the writes that have been
committed belong to the delivery that has inserted the row of its command, so no two deliveries of
one command have committed writes; that delivery has replied what the row holds; and a delivery made
once the row is there runs no handler, and its only way to end is a reply with what the row holds. -/
theorem exactly_once (hrun : Machine.run (step json hasHandler violation) .init as = some s) :
    (∀ commandId, (s.database.commands.filter fun row => row.2.id = commandId).length ≤ 1) ∧
      (∀ write ∈ s.database.writes, ∃ row ∈ s.database.commands, row.1 = write.1 ∧
        row.2.id = (s.deliveries write.1).context.messageId) ∧
      (∀ write ∈ s.database.writes, ∀ write' ∈ s.database.writes,
        (s.deliveries write.1).context.messageId = (s.deliveries write'.1).context.messageId →
          write.1 = write'.1) ∧
      (∀ row ∈ s.database.commands, ∃ rest, (s.deliveries row.1).point =
        .ended (replyMessages (s.deliveries row.1).context (row.2.reply json) ++ rest)) ∧
      ∀ row ∈ s.database.commands, ∀ processor context as' s', context.messageId = row.2.id →
        Machine.run (step json hasHandler violation) s (.deliver processor context :: as') =
          some s' →
        row ∈ s'.database.commands ∧ (∀ run, .handle s.deliveryCount run ∉ as') ∧
          ((s'.deliveries s.deliveryCount).point =
              .ended (replyMessages context (row.2.reply json)) ∨
            (s'.deliveries s.deliveryCount).point = .begin ∧
              ∃ s'', step json hasHandler violation s' (.lookup s.deliveryCount) = some s'' ∧
                (s''.deliveries s.deliveryCount).point =
                  .ended (replyMessages context (row.2.reply json))) := by
  have h := consistent_of_run json hasHandler violation hrun
  have hwriter : ∀ write ∈ s.database.writes, ∃ row ∈ s.database.commands, row.1 = write.1 ∧
      row.2.id = (s.deliveries write.1).context.messageId := by
    intro write hwrite
    obtain ⟨c, hc⟩ := h.writes write hwrite
    exact ⟨_, hc, rfl, (h.rows _ hc).1⟩
  refine ⟨?_, hwriter, ?_, fun row hrow => (h.rows row hrow).2, ?_⟩
  · intro commandId
    have hcount := List.nodup_iff_count_le_one.1 h.unique commandId
    rw [List.count, List.countP_map, List.countP_eq_length_filter] at hcount
    simpa [Function.comp_def, beq_eq_decide] using hcount
  · intro write hwrite write' hwrite' hsame
    obtain ⟨row, hrow, hrow1, hid⟩ := hwriter write hwrite
    obtain ⟨row', hrow', hrow1', hid'⟩ := hwriter write' hwrite'
    have heq : row = row' :=
      List.inj_on_of_nodup_map h.unique hrow hrow' (by rw [hid, hid', hsame])
    rw [← hrow1, ← hrow1', heq]
  · intro row hrow processor context as' s' hid hlate
    obtain ⟨t, hdeliver, hrest⟩ := Machine.run_cons_eq_some.1 hlate
    have hconsistent := h.step hdeliver
    have hinit : Late json s.deliveryCount context row t := by
      cases hdeliver
      exact ⟨hconsistent, hrow, Nat.lt_succ_self _, by simp, .inl (by simp)⟩
    obtain ⟨hend, hactions⟩ := Machine.run_invariant_forall (Late json s.deliveryCount context row)
      (fun a => ∀ run, a ≠ .handle s.deliveryCount run)
      (fun _ _ _ hl hstep => hl.step hid hstep) hinit hrest
    refine ⟨hend.present, fun run hmem => hactions _ hmem run rfl, ?_⟩
    rcases hend.point with hpoint | hpoint
    · exact .inr ⟨hpoint, _, hend.lookup hid hpoint, by simp⟩
    · exact .inl hpoint

/-- Two deliveries of a command run its handler at the same time, and the second one commits; a third
delivery gets the reply of that one. -/
def race : List (Action Nat Nat Nat) :=
  let context : CommandContext := ⟨"c", "k", some "r", none⟩
  [.deliver 0 context, .deliver 1 context, .lookup 0, .lookup 1,
    .handle 0 ⟨[7], some (.value 1), .new, none⟩, .handle 1 ⟨[8], some (.value 2), .new, none⟩,
    .save 1, .save 0, .fail 0, .deliver 2 context, .lookup 2]

theorem exactly_once_of_race :
    ∃ s, Machine.run (step (Json.plain Nat Nat) (fun _ => true) "duplicate key") .init race =
        some s ∧ s.database.writes = [(1, 8)] ∧
      (∀ commandId, (s.database.commands.filter fun row => row.2.id = commandId).length ≤ 1) := by
  have hany : (Machine.run (step (Json.plain Nat Nat) (fun _ => true) "duplicate key") .init
      race).any (fun s => decide (s.database.writes = [(1, 8)])) = true := by decide +kernel
  obtain ⟨s, hrun, hwrites⟩ := (Option.any_eq_true _ _).1 hany
  exact ⟨s, hrun, of_decide_eq_true hwrites,
    (exactly_once (Json.plain Nat Nat) (fun _ => true) "duplicate key" hrun).1⟩

end Runs

end IFramework.Commands
