import IFramework.Message.Basic
import Mathlib.Logic.Function.Basic
import Mathlib.Order.Basic

/-!
# The Redis event store

`EventStore.AppendEvents` runs one Lua script, which Redis executes atomically: it looks the command
up, compares the version and stores the result of the command and the batch of events. The script
keeps its effects when one of its calls fails, and a call fails on a key that holds a value of
another type; keys are composed from the ids, so that a command key can also be an event key.

Objects and events are stored as JSON texts. `Json` is what the store needs of the JSON library and
of `IMessageTypeProvider`: the text of an object can be read back. The texts of the arrays of
payloads and of the `CommandResult` are stored and returned whole; they are modelled by their
contents. Versions count the batches of an aggregate, from one, and `-1` as the expected version says
that there is nothing to append. They are of type `int`: that they are natural numbers here, and that
a batch gets the next one, is the code for aggregates with fewer than `2^31 - 1` batches.
-/

namespace IFramework.EventSourcing

/-- An `ObjectPayload`; `payload` is a JSON text. -/
structure ObjectPayload (T : Type) where
  code : String
  payload : T
  deriving DecidableEq, Repr

/-- A `CommandResult`. -/
structure CommandResult (T : Type) where
  result : Option (ObjectPayload T)
  sagaResult : Option (ObjectPayload T)
  aggregateRootEventPayloads : Option (List (ObjectPayload T))
  applicationEventPayloads : Option (List (ObjectPayload T))
  deriving DecidableEq, Repr

/-- JSON texts and message codes: what is written can be read back, and the text of an object is
not blank. -/
structure Json (T P R : Type) where
  isNullOrWhiteSpace : T → Bool
  ofObj : Obj P R → ObjectPayload T
  toObj : ObjectPayload T → Option (Obj P R)
  ofEvent : Event P → ObjectPayload T
  toEvent : ObjectPayload T → Event P
  toObj_ofObj : ∀ o, toObj (ofObj o) = some o
  ofObj_not_blank : ∀ o, isNullOrWhiteSpace (ofObj o).payload = false
  toEvent_ofEvent : ∀ e, toEvent (ofEvent e) = e

attribute [simp] Json.toObj_ofObj Json.ofObj_not_blank Json.toEvent_ofEvent

/-- Texts that are the objects themselves. -/
def Json.plain (P R : Type) [Inhabited P] : Json (Obj P R ⊕ Event P) P R where
  isNullOrWhiteSpace _ := false
  ofObj o := ⟨"", .inl o⟩
  toObj p :=
    match p.payload with
    | .inl o => some o
    | .inr _ => none
  ofEvent e := ⟨"", .inr e⟩
  toEvent p :=
    match p.payload with
    | .inl _ => ⟨0, default⟩
    | .inr e => e
  toObj_ofObj _ := rfl
  ofObj_not_blank _ := rfl
  toEvent_ofEvent _ := rfl

/-! ## Redis -/

/-- A value of the key space: a JSON document or a sorted set, in the order of the scores. -/
inductive RedisValue (T : Type) where
  | json (document : CommandResult T)
  | zset (members : List (Int × List (ObjectPayload T)))

/-- The key space. -/
abbrev Redis (T : Type) := String → Option (RedisValue T)

/-- The call fails because the key holds a value of another type. -/
inductive RedisError where
  | wrongType
  deriving DecidableEq, Repr

section Commands

variable {T : Type} [DecidableEq T]

/-- `JSON.GET key .` -/
def jsonGet (db : Redis T) (key : String) : Except RedisError (Option (CommandResult T)) :=
  match db key with
  | none => .ok none
  | some (.json document) => .ok (some document)
  | some (.zset _) => .error .wrongType

/-- `ZREVRANGE key 0 0 WITHSCORES`: the greatest score. -/
def zrevrange (db : Redis T) (key : String) : Except RedisError (Option Int) :=
  match db key with
  | none => .ok none
  | some (.zset members) => .ok (members.getLast?.map Prod.fst)
  | some (.json _) => .error .wrongType

/-- Put a member behind those with a score that is not greater. -/
def insertMember (score : Int) (member : List (ObjectPayload T)) :
    List (Int × List (ObjectPayload T)) → List (Int × List (ObjectPayload T))
  | [] => [(score, member)]
  | m :: ms => if m.1 ≤ score then m :: insertMember score member ms else (score, member) :: m :: ms

/-- `ZADD key score member`: a member that is present gets the new score. -/
def zadd (db : Redis T) (key : String) (score : Int) (member : List (ObjectPayload T)) :
    Except RedisError (Redis T) :=
  match db key with
  | none => .ok (Function.update db key (some (.zset [(score, member)])))
  | some (.zset members) =>
    .ok (Function.update db key
      (some (.zset (insertMember score member (members.filter fun m => m.2 ≠ member)))))
  | some (.json _) => .error .wrongType

/-- `ZRANGEBYSCORE key start end`. -/
def zrangebyscore (db : Redis T) (key : String) (start : Int) (stop : Option Int) :
    Except RedisError (List (Int × List (ObjectPayload T))) :=
  match db key with
  | none => .ok []
  | some (.zset members) =>
    .ok (members.filter fun m => start ≤ m.1 ∧ ∀ s ∈ stop, m.1 ≤ s)
  | some (.json _) => .error .wrongType

end Commands

/-- The key of the result of a command. -/
def aggregateCommandKey (id commandId : String) : String := "ag:\x7b" ++ id ++ "\x7d:" ++ commandId

/-- The key of the events of an aggregate. -/
def aggregateEventKey (id : String) : String := "ag:\x7b" ++ id ++ "\x7d:events"

/-- The parameters of the script. -/
structure ScriptParameters (T : Type) where
  id : String
  commandId : String
  expectedVersion : Int
  result : CommandResult T
  aggregateRootEvents : Option (List (ObjectPayload T))

/-- What the script returns. -/
inductive ScriptResult (T : Type) where
  | bulkString (document : CommandResult T)
  | nil
  | integer (value : Int)
  | error (e : RedisError)

section Script

variable {T : Type} [DecidableEq T]

/-- The script that appends events. -/
def appendEventsLuaScript (db : Redis T) (p : ScriptParameters T) : Redis T × ScriptResult T :=
  let commandKey := aggregateCommandKey p.id p.commandId
  match jsonGet db commandKey with
  | .error e => (db, .error e)
  | .ok (some result) => (db, .bulkString result)
  | .ok none =>
    if p.expectedVersion < 0 then
      (Function.update db commandKey (some (.json p.result)), .nil)
    else
      match zrevrange db (aggregateEventKey p.id) with
      | .error e => (db, .error e)
      | .ok version =>
        if version = none ∨ version = some p.expectedVersion then
          let newVersion := p.expectedVersion + 1
          -- the second JSON.SET puts the events into the document of the first
          let db := Function.update db commandKey
            (some (.json { p.result with aggregateRootEventPayloads := p.aggregateRootEvents }))
          match zadd db (aggregateEventKey p.id) newVersion (p.aggregateRootEvents.getD []) with
          | .error e => (db, .error e)
          | .ok db => (db, .integer newVersion)
        else (db, .integer (-2))

/-- The ways in which the script ends, with the state of the key space it leaves. -/
inductive ScriptCase (db : Redis T) (p : ScriptParameters T) : Redis T × ScriptResult T → Prop
  | handled {document}
      (hcommand : db (aggregateCommandKey p.id p.commandId) = some (.json document)) :
      ScriptCase db p (db, .bulkString document)
  | saved (hcommand : db (aggregateCommandKey p.id p.commandId) = none)
      (hexpected : p.expectedVersion < 0) :
      ScriptCase db p
        (Function.update db (aggregateCommandKey p.id p.commandId) (some (.json p.result)), .nil)
  | appended {db'} (hcommand : db (aggregateCommandKey p.id p.commandId) = none)
      (hexpected : 0 ≤ p.expectedVersion)
      (hversion : zrevrange db (aggregateEventKey p.id) = .ok none ∨
        zrevrange db (aggregateEventKey p.id) = .ok (some p.expectedVersion))
      (hadd : zadd
        (Function.update db (aggregateCommandKey p.id p.commandId)
          (some (.json { p.result with aggregateRootEventPayloads := p.aggregateRootEvents })))
        (aggregateEventKey p.id) (p.expectedVersion + 1) (p.aggregateRootEvents.getD []) =
          .ok db') :
      ScriptCase db p (db', .integer (p.expectedVersion + 1))
  | conflict {version} (hcommand : db (aggregateCommandKey p.id p.commandId) = none)
      (hexpected : 0 ≤ p.expectedVersion)
      (hversion : zrevrange db (aggregateEventKey p.id) = .ok (some version))
      (hne : version ≠ p.expectedVersion) : ScriptCase db p (db, .integer (-2))
  | failed {e} : ScriptCase db p (db, .error e)
  | failedAdd {e} (hcommand : db (aggregateCommandKey p.id p.commandId) = none)
      (hexpected : 0 ≤ p.expectedVersion) :
      ScriptCase db p
        (Function.update db (aggregateCommandKey p.id p.commandId)
          (some (.json { p.result with aggregateRootEventPayloads := p.aggregateRootEvents })),
          .error e)

theorem ScriptCase.of_script (db : Redis T) (p : ScriptParameters T) :
    ScriptCase db p (appendEventsLuaScript db p) := by
  unfold appendEventsLuaScript
  dsimp only
  split
  · exact .failed
  · next document hget =>
    have hcommand : db (aggregateCommandKey p.id p.commandId) = some (.json document) := by
      unfold jsonGet at hget
      split at hget <;> simp_all
    exact .handled hcommand
  · next hget =>
    have hcommand : db (aggregateCommandKey p.id p.commandId) = none := by
      unfold jsonGet at hget
      split at hget <;> simp_all
    split
    · next hexpected => exact .saved hcommand hexpected
    · next hexpected =>
      have hexpected := Int.not_lt.1 hexpected
      split
      · exact .failed
      · next version hversion =>
        split
        · next hmatch =>
          have hmatch : zrevrange db (aggregateEventKey p.id) = .ok none ∨
              zrevrange db (aggregateEventKey p.id) = .ok (some p.expectedVersion) := by
            rw [hversion]
            exact hmatch.imp (congrArg _) (congrArg _)
          split
          · exact .failedAdd hcommand hexpected
          · next db' hadd => exact .appended hcommand hexpected hmatch hadd
        · next hmatch =>
          obtain ⟨hnone, hne⟩ := not_or.1 hmatch
          cases version with
          | none => exact absurd rfl hnone
          | some v => exact .conflict hcommand hexpected hversion (fun h => hne (congrArg some h))

end Script

/-! ## The client side -/

section Client

variable {T P R : Type} [DecidableEq T] (json : Json T P R)

/-- `GetObjectPayloads`: `null` for no or an empty array. -/
def getObjectPayloads (events : Option (List (Event P))) : Option (List (ObjectPayload T)) :=
  match events with
  | some (e :: es) => some ((e :: es).map json.ofEvent)
  | some [] | none => none

/-- How a call of `AppendEvents` ends. -/
inductive AppendOutcome (P R : Type) where
  | appended
  | messageDuplicatelyHandled (commandResult sagaResult : Option (Obj P R))
      (aggregateRootEvents applicationEvents : Option (List (Event P)))
  | addDuplicatedAggregateRoot (id : String)
  | dbConcurrencyException
  | redisException (e : RedisError)

/-- The arguments of a call of `AppendEvents`. -/
structure AppendArguments (P R : Type) where
  id : String
  expectedVersion : Int
  correlationId : String
  result : Option (Obj P R)
  sagaResult : Option (Obj P R)
  aggregateRootEvents : Option (List (Event P))
  applicationEvents : Option (List (Event P))

/-- The parameters that `AppendEvents` passes to the script. -/
def AppendArguments.parameters (a : AppendArguments P R) : ScriptParameters T where
  id := a.id
  commandId := a.correlationId
  expectedVersion := a.expectedVersion
  result :=
    { result := a.result.map json.ofObj
      sagaResult := a.sagaResult.map json.ofObj
      aggregateRootEventPayloads := none
      applicationEventPayloads := getObjectPayloads json a.applicationEvents }
  aggregateRootEvents := getObjectPayloads json a.aggregateRootEvents

/-- Replace a local variable by the stored value, unless that is absent or blank. -/
def restore (stored : Option (ObjectPayload T)) (current : Option (Obj P R)) :
    Option (Obj P R) :=
  match stored with
  | some p => if !json.isNullOrWhiteSpace p.payload then json.toObj p else current
  | none => current

/-- `AppendEvents`. -/
def appendEvents (db : Redis T) (a : AppendArguments P R) : Redis T × AppendOutcome P R :=
  match appendEventsLuaScript db (a.parameters json) with
  | (db, .bulkString commandResult) =>
    (db, .messageDuplicatelyHandled
      (restore json commandResult.result a.result)
      (restore json commandResult.sagaResult a.sagaResult)
      (commandResult.aggregateRootEventPayloads.map (List.map json.toEvent))
      (commandResult.applicationEventPayloads.map (List.map json.toEvent)))
  | (db, .integer value) =>
    if value = -2 then
      if a.expectedVersion = 0 then (db, .addDuplicatedAggregateRoot a.id)
      else (db, .dbConcurrencyException)
    else (db, .appended)
  | (db, .nil) => (db, .appended)
  | (db, .error e) => (db, .redisException e)

/-- The document of a command that `AppendEvents` has accepted. -/
def AppendArguments.document (a : AppendArguments P R) : CommandResult T :=
  { (a.parameters json).result with
    aggregateRootEventPayloads :=
      if a.expectedVersion < 0 then none else (a.parameters json).aggregateRootEvents }

/-- A key with a document keeps it when a member is added to a sorted set. -/
theorem zadd_json {db db' : Redis T} {key key' : String} {score : Int}
    {member : List (ObjectPayload T)} {document : CommandResult T}
    (hkey : db key = some (.json document)) (hadd : zadd db key' score member = .ok db') :
    db' key = some (.json document) := by
  unfold zadd at hadd
  have hne : db key' = none ∨ (∃ ms, db key' = some (.zset ms)) → key ≠ key' := by
    rintro hother rfl
    rcases hother with hother | ⟨ms, hother⟩ <;> simp [hkey] at hother
  split at hadd
  · next hnone =>
    cases hadd
    simp [hne (.inl hnone), hkey]
  · next ms hzset =>
    cases hadd
    simp [hne (.inr ⟨ms, hzset⟩), hkey]
  · cases hadd

/-- When `AppendEvents` accepts a command, its document is stored. -/
theorem document_of_appended {db db' : Redis T} {a : AppendArguments P R}
    (h : appendEvents json db a = (db', .appended)) :
    db' (aggregateCommandKey a.id a.correlationId) = some (.json (a.document json)) := by
  unfold appendEvents at h
  have hcase := ScriptCase.of_script db (a.parameters json)
  generalize hresult : appendEventsLuaScript db (a.parameters json) = result at h hcase
  cases hcase with
  | handled hcommand => simp at h
  | saved hcommand hexpected =>
    cases h
    have hneg : a.expectedVersion < 0 := hexpected
    simp [AppendArguments.document, AppendArguments.parameters, hneg]
  | appended hcommand hexpected hversion hadd =>
    have hpos : ¬a.expectedVersion < 0 := Int.not_lt.2 hexpected
    have hne : (a.parameters json).expectedVersion + 1 ≠ -2 := by omega
    simp only [hne, if_false, Prod.mk.injEq, and_true] at h
    subst h
    refine zadd_json ?_ hadd
    simp [AppendArguments.document, hpos, AppendArguments.parameters]
  | conflict hcommand hexpected hversion hne =>
    simp only [if_true] at h
    split at h <;> simp at h
  | failed => simp at h
  | failedAdd => simp at h

/-- No call of `AppendEvents` changes a document that is there. -/
theorem document_kept {db : Redis T} {key : String} {document : CommandResult T}
    (hkey : db key = some (.json document)) (a : AppendArguments P R) :
    (appendEvents json db a).1 key = some (.json document) := by
  have hscript : (appendEventsLuaScript db (a.parameters json)).1 key = some (.json document) := by
    have hcase := ScriptCase.of_script db (a.parameters json)
    generalize appendEventsLuaScript db (a.parameters json) = result at hcase
    have hupdate : ∀ {k} {value : Option (RedisValue T)}, db k = none →
        Function.update db k value key = some (.json document) := by
      intro k value hnone
      have hne : key ≠ k := by
        rintro rfl
        simp [hkey] at hnone
      simp [hne, hkey]
    cases hcase with
    | handled hcommand => exact hkey
    | saved hcommand hexpected => exact hupdate hcommand
    | appended hcommand hexpected hversion hadd => exact zadd_json (hupdate hcommand) hadd
    | conflict => exact hkey
    | failed => exact hkey
    | failedAdd hcommand hexpected => exact hupdate hcommand
  unfold appendEvents
  split
  · next hresult => simpa [hresult] using hscript
  · next hresult =>
    split
    · split <;> simpa [hresult] using hscript
    · simpa [hresult] using hscript
  · next hresult => simpa [hresult] using hscript
  · next hresult => simpa [hresult] using hscript

/-- A command with a document is a duplicate; its variables are restored from the document. -/
theorem appendEvents_of_document {db : Redis T} {a : AppendArguments P R}
    {document : CommandResult T}
    (h : db (aggregateCommandKey a.id a.correlationId) = some (.json document)) :
    appendEvents json db a =
      (db, .messageDuplicatelyHandled (restore json document.result a.result)
        (restore json document.sagaResult a.sagaResult)
        (document.aggregateRootEventPayloads.map (List.map json.toEvent))
        (document.applicationEventPayloads.map (List.map json.toEvent))) := by
  have hget : jsonGet db (aggregateCommandKey a.id a.correlationId) = .ok (some document) := by
    simp [jsonGet, h]
  simp [appendEvents, appendEventsLuaScript, AppendArguments.parameters, hget]

section Answers

variable {db : Redis T} {a : AppendArguments P R}
  (hcommand : db (aggregateCommandKey a.id a.correlationId) = none)

include hcommand

theorem appendEvents_of_neg (hexpected : a.expectedVersion < 0) :
    appendEvents json db a =
      (Function.update db (aggregateCommandKey a.id a.correlationId)
        (some (.json (a.parameters json).result)), .appended) := by
  simp [appendEvents, appendEventsLuaScript, AppendArguments.parameters, jsonGet, hcommand,
    hexpected]

/-- The version of a new command is not the current one. -/
theorem appendEvents_of_conflict {version : Int} (hexpected : 0 ≤ a.expectedVersion)
    (hversion : zrevrange db (aggregateEventKey a.id) = .ok (some version))
    (hne : version ≠ a.expectedVersion) :
    appendEvents json db a =
      (db, if a.expectedVersion = 0 then .addDuplicatedAggregateRoot a.id
        else .dbConcurrencyException) := by
  simp only [appendEvents, appendEventsLuaScript, AppendArguments.parameters, jsonGet, hcommand,
    hversion, Int.not_lt.2 hexpected, if_false, Option.some.injEq, hne, or_false, reduceCtorEq]
  simp only [if_true]
  split <;> rfl

/-- The key of the events of a new command holds a document. -/
theorem appendEvents_of_wrongType {document : CommandResult T}
    (hexpected : 0 ≤ a.expectedVersion)
    (hkey : db (aggregateEventKey a.id) = some (.json document)) :
    appendEvents json db a = (db, .redisException .wrongType) := by
  simp [appendEvents, appendEventsLuaScript, AppendArguments.parameters, jsonGet, zrevrange,
    hcommand, hkey, Int.not_lt.2 hexpected]

/-- The version of a new command is the current one: its document is stored, and its events are
added to the sorted set unless that fails. -/
theorem appendEvents_of_version (hexpected : 0 ≤ a.expectedVersion)
    (hversion : zrevrange db (aggregateEventKey a.id) = .ok none ∨
      zrevrange db (aggregateEventKey a.id) = .ok (some a.expectedVersion)) :
    appendEvents json db a =
      match zadd
        (Function.update db (aggregateCommandKey a.id a.correlationId)
          (some (.json (a.document json))))
        (aggregateEventKey a.id) (a.expectedVersion + 1)
        ((a.parameters json).aggregateRootEvents.getD []) with
      | .error e =>
        (Function.update db (aggregateCommandKey a.id a.correlationId)
          (some (.json (a.document json))), .redisException e)
      | .ok db' => (db', .appended) := by
  obtain ⟨version, hversion, hmatch⟩ : ∃ version, zrevrange db (aggregateEventKey a.id) =
      .ok version ∧ (version = none ∨ version = some a.expectedVersion) := by
    rcases hversion with hversion | hversion
    · exact ⟨_, hversion, .inl rfl⟩
    · exact ⟨_, hversion, .inr rfl⟩
  have hget : jsonGet db (aggregateCommandKey a.id a.correlationId) = .ok none := by
    simp [jsonGet, hcommand]
  have hnonneg : ¬a.expectedVersion < 0 := Int.not_lt.2 hexpected
  have hne : a.expectedVersion + 1 ≠ -2 := by omega
  simp only [appendEvents, appendEventsLuaScript, AppendArguments.document,
    AppendArguments.parameters, hget, hversion, hmatch, hnonneg, if_true, if_false]
  generalize zadd (_ : Redis T) (aggregateEventKey a.id) (a.expectedVersion + 1) _ = added
  cases added with
  | error e => rfl
  | ok db' => simp [hne]

end Answers

omit [DecidableEq T] in
/-- A stored value is restored; without one the current value stays. -/
@[simp] theorem restore_map (stored current : Option (Obj P R)) :
    restore json (stored.map json.ofObj) current = stored.or current := by
  cases stored <;> simp [restore]

omit [DecidableEq T] in
@[simp] theorem getObjectPayloads_map (events : Option (List (Event P))) :
    ((getObjectPayloads json events).map (List.map json.toEvent)).getD [] = events.getD [] := by
  cases events with
  | none => rfl
  | some es =>
    cases es with
    | nil => rfl
    | cons e es => simp [getObjectPayloads, Function.comp_def]

/-- `GetEvents` from a version on. -/
def getEvents (db : Redis T) (id : String) (start : Int) (stop : Option Int) :
    Except RedisError (List (Event P)) :=
  match zrangebyscore db (aggregateEventKey id) start stop with
  | .ok members => .ok (members.flatMap fun m => m.2.map json.toEvent)
  | .error e => .error e

end Client

end IFramework.EventSourcing
