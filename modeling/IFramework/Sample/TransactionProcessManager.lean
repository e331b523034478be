import IFramework.Sample.Transaction

/-!
# The transfer saga

The command handlers of the bank, the process manager that turns their events into further commands,
and the bank they form: the stored aggregates and the messages under way. Messages arrive in any
order. `deliver` hands over a message for good, `redeliver` hands it over and leaves it under way,
as a broker does that has not seen it acknowledged. The handling of a message is one step; accounts
and transactions have ids of their own.

`failures` and `results` are the replies: what a handler threw, and what `FinishSaga` was given.
`opened` adds up the amounts that accounts were opened with; no step reads it.
-/

namespace IFramework.Sample

open EventSourcing (AggregateRoot Stored)

/-- The commands of the bank. -/
inductive Command where
  | createAccount (accountId name cardId : String) (amount : Int)
  | prepareAccountCredit (accountId : String) (transaction : TransactionInfo)
  | prepareAccountDebit (accountId : String) (transaction : TransactionInfo)
  | commitAccountCredit (accountId : String) (transaction : TransactionInfo)
  | commitAccountDebit (accountId : String) (transaction : TransactionInfo)
  | revertAccountDebitPreparation (accountId : String) (transaction : TransactionInfo)
  | revertAccountCreditPreparation (accountId : String) (transaction : TransactionInfo)
  | submitTransaction (transactionId debitAccountId creditAccountId : String) (amount : Int)
  | prepareTransactionCredit (transactionId : String) (transaction : TransactionInfo)
  | prepareTransactionDebit (transactionId : String) (transaction : TransactionInfo)
  | commitTransactionCredit (transactionId : String) (transaction : TransactionInfo)
  | commitTransactionDebit (transactionId : String) (transaction : TransactionInfo)
  | failTransactionPreparation (transactionId : String) (transaction : TransactionInfo)
      (failReason : String)
  deriving DecidableEq

/-- A message on the queue of the commands or on the topic of the events. -/
inductive Message where
  | command (command : Command)
  | accountEvent (event : AccountEvent)
  | transactionEvent (event : TransactionEvent)
  deriving DecidableEq

/-- `TransactionProcessManager`: the commands sent on a message. It subscribes to the events named
here. -/
def processManager : Message → List Command
  | .transactionEvent (.transactionSubmitted _ (some transaction)) =>
    [.prepareAccountCredit transaction.creditAccountId transaction,
      .prepareAccountDebit transaction.debitAccountId transaction]
  | .accountEvent (.accountDebitPrepared _ transaction _) =>
    [.prepareTransactionDebit transaction.transactionId transaction]
  | .accountEvent (.accountCreditPrepared _ transaction) =>
    [.prepareTransactionCredit transaction.transactionId transaction]
  | .accountEvent (.accountDebitPrepareFailed _ transaction reason) =>
    [.failTransactionPreparation transaction.transactionId transaction reason,
      .revertAccountCreditPreparation transaction.creditAccountId transaction]
  | .accountEvent (.accountCreditPrepareFailed _ transaction reason) =>
    [.failTransactionPreparation transaction.transactionId transaction reason,
      .revertAccountDebitPreparation transaction.debitAccountId transaction]
  | .transactionEvent (.transactionPrepared _ (some transaction)) =>
    [.commitAccountCredit transaction.creditAccountId transaction,
      .commitAccountDebit transaction.debitAccountId transaction]
  | .accountEvent (.accountCreditCommitted _ transaction _ _) =>
    [.commitTransactionCredit transaction.transactionId transaction]
  | .accountEvent (.accountDebitCommitted _ transaction _) =>
    [.commitTransactionDebit transaction.transactionId transaction]
  | _ => []

/-- `TransactionResult`. -/
structure TransactionResult where
  success : Bool
  remark : Option String
  deriving DecidableEq, Repr

/-- Why a command has failed. -/
inductive Failure where
  | thrown (e : BankException)
  /-- The event store refuses to add an aggregate that it has. -/
  | notAdded
  deriving DecidableEq

/-- The stores of the two aggregates, the messages under way, and the replies. -/
structure Bank where
  accounts : AList fun _ : String => Stored BankAccount
  transactions : AList fun _ : String => Stored TransactionState
  messages : List Message
  failures : List (Command × Failure)
  results : List (String × TransactionResult)
  opened : Int

namespace Bank

/-- No accounts. -/
def init : Bank := ⟨∅, ∅, [], [], [], 0⟩

/-- Put messages under way. -/
def send (b : Bank) (messages : List Message) : Bank :=
  { b with messages := b.messages ++ messages }

/-- The reply to a command that fails; the event of `OnException` is published. -/
def fail (b : Bank) (command : Command) (failure : Failure) : Bank :=
  let b := { b with failures := b.failures ++ [(command, failure)] }
  match failure with
  | .thrown (.onException event) => b.send [.accountEvent event]
  | _ => b

/-- The commit of an account: its new state is stored and its events are published, unless it has
none. -/
def saveAccount (b : Bank) (id : String) (a : Account) : Bank :=
  if a.eventQueue.isEmpty then b
  else
    { b with accounts := b.accounts.insert id a.store }.send
      (a.eventQueue.map fun event : Event _ => .accountEvent event.payload)

/-- The commit of a transaction. -/
def saveTransaction (b : Bank) (id : String) (t : Transaction) : Bank :=
  if t.eventQueue.isEmpty then b
  else
    { b with transactions := b.transactions.insert id t.store }.send
      (t.eventQueue.map fun event : Event _ => .transactionEvent event.payload)

/-- A handler of `AccountCommandHandler` that loads the account and calls one of its operations. -/
def handleAccount (b : Bank) (command : Command) (accountId : String)
    (operation : Account → Except BankException Account) : Bank :=
  match b.accounts.lookup accountId with
  | none => b.fail command (.thrown (.domainException .objectNotExists [accountId]))
  | some stored =>
    match operation (AggregateRoot.load stored) with
    | .error e => b.fail command (.thrown e)
    | .ok a => b.saveAccount accountId a

/-- A handler of `TransactionCommandHandler` that loads the transaction, calls one of its operations
and may finish the saga. -/
def handleTransaction (b : Bank) (command : Command) (transactionId : String)
    (operation : Transaction → Transaction)
    (finishSaga : Transaction → Option TransactionResult) : Bank :=
  match b.transactions.lookup transactionId with
  | none => b.fail command (.thrown (.domainException .objectNotExists [transactionId]))
  | some stored =>
    let t := operation (AggregateRoot.load stored)
    { b.saveTransaction transactionId t with
      results := b.results ++ ((finishSaga t).map fun result => (transactionId, result)).toList }

/-- What the handlers of the two commits give to `FinishSaga`. -/
def finishCompleted (t : Transaction) : Option TransactionResult :=
  if t.state.status = .completed then some ⟨true, none⟩ else none

/-- The command handlers. -/
def handleCommand (b : Bank) (command : Command) : Bank :=
  match command with
  | .createAccount accountId name cardId amount =>
    match b.accounts.lookup accountId with
    | some _ =>
      b.fail command (.thrown (.domainException .bankAccountAlreadyExists [accountId]))
    | none =>
      { b with opened := b.opened + amount }.saveAccount accountId
        (.new accountId name cardId amount)
  | .prepareAccountCredit accountId transaction =>
    b.handleAccount command accountId (·.prepareCredit transaction)
  | .prepareAccountDebit accountId transaction =>
    b.handleAccount command accountId (·.prepareDebit transaction)
  | .commitAccountCredit accountId transaction =>
    b.handleAccount command accountId (·.commitCredit transaction)
  | .commitAccountDebit accountId transaction =>
    b.handleAccount command accountId (·.commitDebit transaction)
  | .revertAccountDebitPreparation accountId transaction =>
    b.handleAccount command accountId (·.revertDebitPreparation transaction)
  | .revertAccountCreditPreparation accountId transaction =>
    b.handleAccount command accountId (·.revertCreditPreparation transaction)
  | .submitTransaction transactionId debitAccountId creditAccountId amount =>
    match TransactionInfo.new transactionId debitAccountId creditAccountId amount with
    | .error message => b.fail command (.thrown (.exception message))
    | .ok info =>
      match b.transactions.lookup transactionId with
      | some _ => b.fail command .notAdded
      | none => b.saveTransaction transactionId (.new transactionId info)
  | .prepareTransactionCredit transactionId _ =>
    b.handleTransaction command transactionId Transaction.prepareCredit fun _ => none
  | .prepareTransactionDebit transactionId _ =>
    b.handleTransaction command transactionId Transaction.prepareDebit fun _ => none
  | .commitTransactionCredit transactionId _ =>
    b.handleTransaction command transactionId Transaction.commitCredit finishCompleted
  | .commitTransactionDebit transactionId _ =>
    b.handleTransaction command transactionId Transaction.commitDebit finishCompleted
  | .failTransactionPreparation transactionId _ failReason =>
    b.handleTransaction command transactionId (·.failPrepare failReason)
      fun _ => some ⟨false, some failReason⟩

/-- The handling of one message. -/
def handle (b : Bank) : Message → Bank
  | .command command => b.handleCommand command
  | message => b.send ((processManager message).map .command)

/-- What happens next: a client sends a command, or a message arrives. -/
inductive Action where
  | createAccount (accountId name cardId : String) (amount : Int)
  | submitTransaction (transactionId debitAccountId creditAccountId : String) (amount : Int)
  | deliver (index : Nat)
  | redeliver (index : Nat)
  deriving DecidableEq

/-- One step. -/
def step (b : Bank) : Action → Option Bank
  | .createAccount accountId name cardId amount =>
    some (b.send [.command (.createAccount accountId name cardId amount)])
  | .submitTransaction transactionId debitAccountId creditAccountId amount =>
    some (b.send
      [.command (.submitTransaction transactionId debitAccountId creditAccountId amount)])
  | .deliver index =>
    b.messages[index]?.map { b with messages := b.messages.eraseIdx index }.handle
  | .redeliver index => b.messages[index]?.map b.handle

end Bank

end IFramework.Sample
