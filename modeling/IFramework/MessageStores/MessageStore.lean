import IFramework.Message.Basic

/-!
# The message store of the command processor

`MessageStore` is the `DbContext` of a scope: entities that are added to it are tracked until
`SaveChangesAsync` inserts all of them in one transaction, or `Rollback` forgets them. The `Id` of a
`Command` is the primary key of its table, so that an insertion with an `Id` that is present fails,
and with it the whole transaction.

`EnsureIdempotent` is on. The rows that `PersistEvent` and `EnsureArrival` add for the messages are
left out, as is everything of a `Command` that is not read again. `writer` is not part of the source:
it is the delivery that has inserted the row.
-/

namespace IFramework.MessageStores

/-- The JSON texts of replies: what is written can be read back. -/
structure Json (T P R : Type) where
  isNullOrEmpty : T → Bool
  toJson : Obj P R → T
  typeName : Obj P R → String
  toJsonObject : T → String → Option (Obj P R)
  toJson_not_empty : ∀ o, isNullOrEmpty (toJson o) = false
  typeName_ne_empty : ∀ o, typeName o ≠ ""
  toJsonObject_toJson : ∀ o, toJsonObject (toJson o) (typeName o) = some o

attribute [simp] Json.toJson_not_empty Json.typeName_ne_empty Json.toJsonObject_toJson

/-- Texts that are the objects themselves. -/
def Json.plain (P R : Type) : Json (Obj P R) P R where
  isNullOrEmpty _ := false
  toJson o := o
  typeName _ := "object"
  toJsonObject o _ := some o
  toJson_not_empty _ := rfl
  typeName_ne_empty _ := by decide
  toJsonObject_toJson _ := rfl

/-- `MessageStatus`. -/
inductive MessageStatus where
  | completed
  | failed
  | unknownFailed
  deriving DecidableEq, Repr

/-- A row of the table `Commands`. -/
structure Command (T : Type) where
  id : String
  status : MessageStatus
  result : Option T
  resultType : Option String

namespace Command

variable {T P R : Type} (json : Json T P R)

/-- The constructor replaces an exception that is not a `DomainException` by one with the message of
its base exception. -/
def normalize : Obj P R → Obj P R
  | .exn (.other _ baseMessage) => .exn (.other baseMessage baseMessage)
  | o => o

/-- The constructor. -/
def new (messageId : String) (result : Option (Obj P R)) : Command T where
  id := messageId
  status := .completed
  result := result.map fun o => json.toJson (normalize o)
  resultType := result.map fun o => json.typeName (normalize o)

/-- The property `Reply`. -/
def reply (c : Command T) : Option (Obj P R) :=
  match c.result, c.resultType with
  | some result, some resultType =>
    if !json.isNullOrEmpty result ∧ resultType ≠ "" then json.toJsonObject result resultType
    else none
  | _, _ => none

theorem reply_new (messageId : String) (result : Option (Obj P R)) :
    (new json messageId result).reply json = result.map normalize := by
  cases result <;> simp [new, reply]

/-- What a row gives back is sent as the result itself would be. -/
theorem wrapMessage_normalize (o : Obj P R) : wrapMessage (normalize o) = wrapMessage o := by
  cases o with
  | value r => rfl
  | exn e => cases e <;> rfl

end Command

/-! ## The database -/

/-- What a `DbContext` tracks: a new `Command`, or a write of the handler. -/
inductive Entity (T W : Type) where
  | command (c : Command T)
  | write (w : W)

/-- The committed rows, each with its writer. -/
structure Database (T W : Type) where
  commands : List (Nat × Command T)
  writes : List (Nat × W)

section Database

variable {T W : Type}

/-- Insert an entity; `none` is a violation of the primary key. -/
def Database.insert (writer : Nat) (db : Database T W) : Entity T W → Option (Database T W)
  | .command c =>
    if db.commands.any fun row => row.2.id = c.id then none
    else some { db with commands := db.commands ++ [(writer, c)] }
  | .write w => some { db with writes := db.writes ++ [(writer, w)] }

/-- `SaveChangesAsync` and the commit of the transaction: all tracked entities, or none. -/
def Database.saveChanges (writer : Nat) (db : Database T W) (tracked : List (Entity T W)) :
    Option (Database T W) :=
  tracked.foldlM (Database.insert writer) db

variable {P R : Type} (json : Json T P R)

/-- `SaveCommandAsync`: the entities that are tracked when it saves. -/
def saveCommandAsync (tracked : List (Entity T W)) (messageId : String)
    (result : Option (Obj P R)) : List (Entity T W) :=
  tracked ++ [.command (.new json messageId result)]

/-- `SaveFailedCommandAsync`: the entities that are tracked when it saves. -/
def saveFailedCommandAsync (tracked : List (Entity T W)) (messageId : String) (e : Exn P) :
    List (Entity T W) :=
  tracked ++ [.command { Command.new json messageId (some (.exn e)) with status := .failed }]

/-- `Rollback`: nothing is tracked any more. -/
def rollback : List (Entity T W) := []

/-- `GetCommandHandledInfoAsync`. -/
def getCommandHandledInfoAsync (db : Database T W) (commandId : String) : Option (Command T) :=
  (db.commands.find? fun row => row.2.id = commandId).map Prod.snd

end Database

end IFramework.MessageStores
