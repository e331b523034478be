import IFramework.EventSourcing.UnitOfWork
import IFramework.Theory.Words

/-!
# A command that is delivered again

The first handling of a command stores its reply, its saga result and its events. When the command
is handled again under the same key, `CommitAsync` finds them and puts them in the place of what the
handler has computed this time. Two things are not as in the first handling:

* a reply or a saga result that was `null` is not stored, and `AppendEvents` then passes on the one
  of the second handling (`restores_reply_iff`);
* in the first handling the events of the aggregate come after those on the event bus, in the second
  one before them (`restores_events_iff`).
-/

namespace IFramework.EventSourcing

variable {S P R T : Type} [DecidableEq T] (json : Json T P R)

/-- The event store after further calls of `AppendEvents`, by whomever and for whatever command. -/
def later (db : Redis T) (calls : List (AppendArguments P R)) : Redis T :=
  calls.foldl (fun db a => (appendEvents json db a).1) db

/-- The scope that `CommitAsync` leaves. -/
def committed (context : CommandContext) (db : Redis T) (s : Scope S P R) : Scope S P R :=
  (commitAsync json context db s).2.1

/-- `CommitAsync` finds that the command has been handled. -/
def DetectsDuplicate (context : CommandContext) (db : Redis T) (s : Scope S P R) : Prop :=
  ∃ commandResult sagaResult aggregateRootEvents applicationEvents,
    (appendEvents json db (commitArguments context s)).2 =
      .messageDuplicatelyHandled commandResult sagaResult aggregateRootEvents applicationEvents

theorem document_later {db : Redis T} {key : String} {document : CommandResult T}
    (hkey : db key = some (.json document)) (calls : List (AppendArguments P R)) :
    later json db calls key = some (.json document) := by
  induction calls generalizing db with
  | nil => exact hkey
  | cons a calls ih => exact ih (document_kept json hkey a)

section Redelivery

variable {json} {context context' : CommandContext} {db db' : Redis T} {first : Scope S P R}

/-- What the first handling leaves: its own reply and saga result, and the events of the aggregate
behind those of the bus. -/
theorem committed_of_appended
    (hfirst : appendEvents json db (commitArguments context first) = (db', .appended)) :
    committed json context db first =
      { first with bus := first.bus.publishAll first.aggregateEvents } := by
  simp [committed, commitAsync, hfirst, settle]

/-- What a second handling finds in the event store, however late. -/
theorem document_of_redelivery
    (hfirst : appendEvents json db (commitArguments context first) = (db', .appended))
    (hsame : context'.key = context.key ∧ context'.messageId = context.messageId)
    (calls : List (AppendArguments P R)) :
    later json db' calls (aggregateCommandKey context'.key context'.messageId) =
      some (.json ((commitArguments context first).document json)) := by
  rw [hsame.1, hsame.2]
  exact document_later json (document_of_appended json hfirst) calls

theorem committed_of_redelivery
    (hfirst : appendEvents json db (commitArguments context first) = (db', .appended))
    (hsame : context'.key = context.key ∧ context'.messageId = context.messageId)
    (calls : List (AppendArguments P R)) (second : Scope S P R) :
    DetectsDuplicate json context' (later json db' calls) second ∧
      (committed json context' (later json db' calls) second).reply =
        first.reply.or second.reply ∧
      (committed json context' (later json db' calls) second).bus.getSagaResult =
        first.bus.getSagaResult.or second.bus.getSagaResult ∧
      (committed json context' (later json db' calls) second).bus.getEvents =
        first.aggregateEvents.getD [] ++ first.bus.getEvents := by
  have hdocument := document_of_redelivery hfirst hsame calls
  have happend := appendEvents_of_document json (a := commitArguments context' second) hdocument
  refine ⟨⟨_, _, _, _, by rw [happend]⟩, ?_, ?_, ?_⟩
  · simp only [committed, commitAsync, happend, settle]
    exact restore_map json first.reply second.reply
  · simp only [committed, commitAsync, happend, settle]
    have hsaga := restore_map json first.bus.getSagaResult second.bus.getSagaResult
    simp only [AppendArguments.document, AppendArguments.parameters, commitArguments, hsaga]
    cases first.bus.getSagaResult.or second.bus.getSagaResult with
    | none => simp [EventBus.getSagaResult]
    | some r => simp [EventBus.getSagaResult]
  · have happlication : (((commitArguments context first).document
        json).applicationEventPayloads.map (List.map json.toEvent)).getD [] =
          first.bus.getEvents :=
      getObjectPayloads_map json (some first.bus.getEvents)
    have haggregate : (((commitArguments context first).document
        json).aggregateRootEventPayloads.map (List.map json.toEvent)).getD [] =
          first.aggregateEvents.getD [] := by
      simp only [AppendArguments.document, AppendArguments.parameters, commitArguments]
      by_cases hneg : first.expectedVersion < 0
      · simp [hneg, first.expectedVersion_neg_iff.1 hneg]
      · simp only [hneg, if_false]
        exact getObjectPayloads_map json first.aggregateEvents
    simp only [committed, commitAsync, happend, settle]
    split <;> simp [EventBus.getEvents, haggregate, happlication]

/-- A redelivered command is detected as a duplicate, and leaves the reply and the saga result of
the first handling exactly when each of them was not `null` in the first handling or is `null` in
the second. -/
theorem restores_reply_iff
    (hfirst : appendEvents json db (commitArguments context first) = (db', .appended))
    (hsame : context'.key = context.key ∧ context'.messageId = context.messageId)
    (calls : List (AppendArguments P R)) (second : Scope S P R) :
    DetectsDuplicate json context' (later json db' calls) second ∧
      (((committed json context' (later json db' calls) second).reply =
          (committed json context db first).reply ∧
        (committed json context' (later json db' calls) second).bus.getSagaResult =
          (committed json context db first).bus.getSagaResult) ↔
        (first.reply ≠ none ∨ second.reply = none) ∧
          (first.bus.getSagaResult ≠ none ∨ second.bus.getSagaResult = none)) := by
  obtain ⟨hduplicate, hreply, hsaga, -⟩ := committed_of_redelivery hfirst hsame calls second
  have hor : ∀ a b : Option (Obj P R), a.or b = a ↔ a ≠ none ∨ b = none := by
    intro a b
    cases a <;> simp
  refine ⟨hduplicate, ?_⟩
  rw [hreply, hsaga, committed_of_appended hfirst]
  simp only [EventBus.getSagaResult, EventBus.sagaResult_publishAll, hor]

/-- A reply of the first handling is left by the second one, which has computed another. -/
theorem restores_reply_of_value :
    (committed (S := Nat) (Json.plain Nat Nat) ⟨"c", "k", none, none⟩
      (later (Json.plain Nat Nat)
        (appendEvents (Json.plain Nat Nat) (fun _ => none)
          (commitArguments (S := Nat) ⟨"c", "k", none, none⟩ ⟨none, .new, some (.value 1)⟩)).1 [])
      ⟨none, .new, some (.value 2)⟩).reply = some (.value 1) := by
  have hfirst : appendEvents (Json.plain Nat Nat) (fun _ => none)
      (commitArguments (S := Nat) ⟨"c", "k", none, none⟩ ⟨none, .new, some (.value 1)⟩) =
        (_, .appended) := rfl
  exact ((restores_reply_iff hfirst ⟨rfl, rfl⟩ [] ⟨none, .new, some (.value 2)⟩).2.2
    (by decide)).1

/-- The first handling has no reply; the reply of the second one is left. -/
theorem reply_not_restored_of_null :
    ∃ db', appendEvents (Json.plain Nat Nat) (fun _ => none)
        (commitArguments (S := Nat) ⟨"c", "k", none, none⟩ ⟨none, .new, none⟩) =
          (db', .appended) ∧
      DetectsDuplicate (S := Nat) (Json.plain Nat Nat) ⟨"c", "k", none, none⟩ db'
        ⟨none, .new, some (.value 2)⟩ ∧
      (committed (S := Nat) (Json.plain Nat Nat) ⟨"c", "k", none, none⟩ (fun _ => none)
        ⟨none, .new, none⟩).reply = none ∧
      (committed (S := Nat) (Json.plain Nat Nat) ⟨"c", "k", none, none⟩ db'
        ⟨none, .new, some (.value 2)⟩).reply = some (.value 2) :=
  ⟨_, rfl, ⟨_, _, _, _, rfl⟩, rfl, rfl⟩

/-- A redelivered command is detected as a duplicate, and leaves the events of the first handling in
their order exactly when the events of the aggregate and those of the event bus are repetitions of
one list. -/
theorem restores_events_iff
    (hfirst : appendEvents json db (commitArguments context first) = (db', .appended))
    (hsame : context'.key = context.key ∧ context'.messageId = context.messageId)
    (calls : List (AppendArguments P R)) (second : Scope S P R) :
    DetectsDuplicate json context' (later json db' calls) second ∧
      ((committed json context' (later json db' calls) second).bus.getEvents =
          (committed json context db first).bus.getEvents ↔
        ∃ w m n, first.aggregateEvents.getD [] = Words.power w m ∧
          first.bus.getEvents = Words.power w n) := by
  obtain ⟨hduplicate, -, -, hevents⟩ := committed_of_redelivery hfirst hsame calls second
  refine ⟨hduplicate, ?_⟩
  rw [hevents, committed_of_appended hfirst, ← Words.append_comm_iff]
  simp [EventBus.getEvents]

/-- The three events of a new aggregate are left by the second handling, in their order. -/
theorem restores_events_of_aggregate :
    (committed (Json.plain Nat Nat) ⟨"c", "k", none, none⟩
      (later (Json.plain Nat Nat)
        (appendEvents (Json.plain Nat Nat) (fun _ => none)
          (commitArguments (S := Nat) ⟨"c", "k", none, none⟩
            ⟨some (.add ⟨0, 1, 1, [⟨1, 5⟩, ⟨1, 6⟩, ⟨1, 7⟩]⟩), .new, none⟩)).1 [])
      (⟨none, .new, none⟩ : Scope Nat Nat Nat)).bus.getEvents = [⟨1, 5⟩, ⟨1, 6⟩, ⟨1, 7⟩] := by
  have hfirst : appendEvents (Json.plain Nat Nat) (fun _ => none)
      (commitArguments (S := Nat) ⟨"c", "k", none, none⟩
        ⟨some (.add ⟨0, 1, 1, [⟨1, 5⟩, ⟨1, 6⟩, ⟨1, 7⟩]⟩), .new, none⟩) = (_, .appended) := rfl
  exact (restores_events_iff hfirst ⟨rfl, rfl⟩ [] ⟨none, .new, none⟩).2.2
    ⟨[⟨1, 5⟩, ⟨1, 6⟩, ⟨1, 7⟩], 1, 0, rfl, rfl⟩

/-- An application event comes before the event of the aggregate in the first handling, and after it
in the second. -/
theorem events_not_restored_in_order :
    ∃ db', appendEvents (Json.plain Nat Nat) (fun _ => none)
        (commitArguments (S := Nat) ⟨"c", "k", none, none⟩
          ⟨some (.add ⟨0, 1, 1, [⟨1, 5⟩]⟩), ⟨[⟨0, 9⟩], [], none⟩, none⟩) = (db', .appended) ∧
      DetectsDuplicate (S := Nat) (Json.plain Nat Nat) ⟨"c", "k", none, none⟩ db'
        ⟨none, .new, none⟩ ∧
      (committed (S := Nat) (Json.plain Nat Nat) ⟨"c", "k", none, none⟩ (fun _ => none)
        ⟨some (.add ⟨0, 1, 1, [⟨1, 5⟩]⟩), ⟨[⟨0, 9⟩], [], none⟩, none⟩).bus.getEvents =
          [⟨0, 9⟩, ⟨1, 5⟩] ∧
      (committed (S := Nat) (Json.plain Nat Nat) ⟨"c", "k", none, none⟩ db'
        ⟨none, .new, none⟩).bus.getEvents = [⟨1, 5⟩, ⟨0, 9⟩] :=
  ⟨_, rfl, ⟨_, _, _, _, rfl⟩, rfl, rfl⟩

end Redelivery

end IFramework.EventSourcing
