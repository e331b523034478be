import IFramework.Base
import IFramework.EventSourcing.Repository
import IFramework.Theory.Decimal
import IFramework.Theory.Total

/-!
# Bank accounts

The aggregate `BankAccount` of the sample, its events and its operations. A transfer is prepared on
both of its accounts before it is committed on them: `PrepareDebit` takes the amount from the
available balance and `CommitDebit` from the current balance, `CommitCredit` adds it to both.

Amounts and balances are `decimal`s, modelled by their values as integers that count `10^-28`. The
sums of an operation are rounded as such, and throw when they overflow. The time of a transaction
and the `ErrorCode` of an event are left out, no operation reads them.
-/

namespace IFramework.Sample

open EventSourcing (AggregateRoot AggregateType Stored)

/-! ## Transactions as the accounts see them -/

/-- `TransactionInfo`, which its constructor does not build for one account only. -/
structure TransactionInfo where
  transactionId : String
  debitAccountId : String
  creditAccountId : String
  amount : Int
  debit_ne_credit : debitAccountId ≠ creditAccountId
  deriving DecidableEq

/-- The constructor of `TransactionInfo`. -/
def TransactionInfo.new (transactionId debitAccountId creditAccountId : String) (amount : Int) :
    Except String TransactionInfo :=
  if isNullOrWhiteSpace (some debitAccountId) then
    .error "Value cannot be null or whitespace. (Parameter 'debitAccountId')"
  else if isNullOrWhiteSpace (some creditAccountId) then
    .error "Value cannot be null or whitespace. (Parameter 'creditAccountId')"
  else if h : debitAccountId = creditAccountId then
    .error "From Account and To Account can't be the same."
  else .ok ⟨transactionId, debitAccountId, creditAccountId, amount, h⟩

theorem TransactionInfo.of_new {transactionId debitAccountId creditAccountId : String}
    {amount : Int} {info : TransactionInfo}
    (h : TransactionInfo.new transactionId debitAccountId creditAccountId amount = .ok info) :
    info.transactionId = transactionId ∧ info.debitAccountId = debitAccountId ∧
      info.creditAccountId = creditAccountId ∧ info.amount = amount := by
  unfold TransactionInfo.new at h
  split at h
  · cases h
  · split at h
    · cases h
    · split at h
      · cases h
      · cases h
        exact ⟨rfl, rfl, rfl, rfl⟩

/-- `TransactionType`. -/
inductive TransactionType where
  | debit
  | credit
  deriving DecidableEq, Repr

/-- `TransactionStatement`. -/
structure TransactionStatement where
  transaction : TransactionInfo
  type : TransactionType
  deriving DecidableEq

/-- `AccountStatus`. -/
inductive AccountStatus where
  | normal
  | frozen
  | deleted
  deriving DecidableEq, Repr

/-! ## Events -/

/-- The events of an account, with the two that report a failure. -/
inductive AccountEvent where
  | accountCreated (aggregateRootId : String) (amount : Int) (name cardId : String)
  | accountCreditPrepared (aggregateRootId : String) (transaction : TransactionInfo)
  | accountDebitPrepared (aggregateRootId : String) (transaction : TransactionInfo)
      (availableBalance : Int)
  | accountDebitCommitted (aggregateRootId : String) (transaction : TransactionInfo)
      (currentBalance : Int)
  | accountCreditCommitted (aggregateRootId : String) (transaction : TransactionInfo)
      (availableBalance currentBalance : Int)
  | accountDebitPreparationReverted (aggregateRootId : String) (transaction : TransactionInfo)
      (availableBalance : Int)
  | accountCreditPreparationReverted (aggregateRootId : String) (transaction : TransactionInfo)
  | accountDebitPrepareFailed (aggregateRootId : String) (transaction : TransactionInfo)
      (reason : String)
  | accountCreditPrepareFailed (aggregateRootId : String) (transaction : TransactionInfo)
      (reason : String)
  deriving DecidableEq

/-- The property `Transaction` of an `AccountTransactionEvent`. -/
def AccountEvent.transaction : AccountEvent → Option TransactionInfo
  | .accountCreated .. => none
  | .accountCreditPrepared _ transaction | .accountDebitPrepared _ transaction _
  | .accountDebitCommitted _ transaction _ | .accountCreditCommitted _ transaction _ _
  | .accountDebitPreparationReverted _ transaction _
  | .accountCreditPreparationReverted _ transaction
  | .accountDebitPrepareFailed _ transaction _
  | .accountCreditPrepareFailed _ transaction _ => some transaction

/-- The error codes that the handlers of the bank use. -/
inductive ErrorCode where
  | objectNotExists
  | bankAccountAlreadyExists
  deriving DecidableEq, Repr

/-- What a handler of the bank throws: an `Exception`, the `OverflowException` of a sum, a
`DomainException` with an error code, or the `DomainException` of `OnException`. -/
inductive BankException where
  | exception (message : String)
  | overflowException
  | domainException (errorCode : ErrorCode) (args : List String)
  | onException (event : AccountEvent)
  deriving DecidableEq

/-! ## The aggregate -/

/-- `BankAccount`. -/
structure BankAccount where
  id : String
  name : String
  cardId : String
  transactionStatements : AList fun _ : String => TransactionStatement
  availableBalance : Int
  currentBalance : Int
  status : AccountStatus

namespace BankAccount

/-- The `Handle` methods. An event of a failure is never raised with `OnEvent`. -/
def handle (a : BankAccount) : AccountEvent → BankAccount
  | .accountCreated id amount name cardId =>
    { a with id, name, cardId, availableBalance := amount, currentBalance := amount,
             status := .normal }
  | .accountCreditPrepared _ transaction =>
    { a with transactionStatements :=
        a.transactionStatements.insert transaction.transactionId ⟨transaction, .credit⟩ }
  | .accountDebitPrepared _ transaction availableBalance =>
    { a with transactionStatements :=
               a.transactionStatements.insert transaction.transactionId ⟨transaction, .debit⟩
             availableBalance }
  | .accountDebitCommitted _ transaction currentBalance =>
    { a with transactionStatements := a.transactionStatements.erase transaction.transactionId
             currentBalance }
  | .accountCreditCommitted _ transaction availableBalance currentBalance =>
    { a with transactionStatements := a.transactionStatements.erase transaction.transactionId
             availableBalance, currentBalance }
  | .accountDebitPreparationReverted _ transaction availableBalance =>
    { a with transactionStatements := a.transactionStatements.erase transaction.transactionId
             availableBalance }
  | .accountCreditPreparationReverted _ transaction =>
    { a with transactionStatements := a.transactionStatements.erase transaction.transactionId }
  | .accountDebitPrepareFailed .. => a
  | .accountCreditPrepareFailed .. => a

/-- Accounts as aggregates of the event store. -/
def aggregateType : AggregateType BankAccount AccountEvent where
  blank := ⟨"", "", "", ∅, 0, 0, .normal⟩
  apply a event := a.handle event.payload

/-- The type of the statement of a transaction, `TryGetValue(transactionId)?.Type`. -/
def typeOf (a : BankAccount) (transactionId : String) : Option TransactionType :=
  (a.transactionStatements.lookup transactionId).map TransactionStatement.type

end BankAccount

/-- A `BankAccount` with the queue of its events. -/
abbrev Account := AggregateRoot BankAccount AccountEvent

namespace Account

/-- `OnEvent`. -/
def onEvent (a : Account) (event : AccountEvent) : Account :=
  AggregateRoot.onEvent BankAccount.aggregateType a event

/-- The constructor with an id. -/
def new (id name cardId : String) (amount : Int) : Account :=
  onEvent (AggregateRoot.createInstance BankAccount.aggregateType)
    (.accountCreated id amount name cardId)

/-- `PrepareCredit`. -/
def prepareCredit (a : Account) (transaction : TransactionInfo) : Except BankException Account :=
  if (a.state.transactionStatements.lookup transaction.transactionId).isSome then .ok a
  else if transaction.creditAccountId ≠ a.state.id then
    .error (.exception "Transaction's credit accountId is not the same as target's id.")
  else if a.state.status = .normal then
    .ok (a.onEvent (.accountCreditPrepared a.state.id transaction))
  else
    .error (.onException (.accountCreditPrepareFailed a.state.id transaction
      "Credit account status is not available."))

/-- `PrepareDebit`. -/
def prepareDebit (a : Account) (transaction : TransactionInfo) : Except BankException Account :=
  if (a.state.transactionStatements.lookup transaction.transactionId).isSome then .ok a
  else if transaction.debitAccountId ≠ a.state.id then
    .error (.exception "Transaction's debit accountId is not the same as target's id.")
  else if a.state.status ≠ .normal then
    .error (.onException (.accountDebitPrepareFailed a.state.id transaction
      "Debit account status is not available."))
  else if a.state.availableBalance < transaction.amount then
    .error (.onException (.accountDebitPrepareFailed a.state.id transaction
      "Debit account is without enough funds."))
  else
    match Decimal.sub a.state.availableBalance transaction.amount with
    | none => .error .overflowException
    | some availableBalance =>
      .ok (a.onEvent (.accountDebitPrepared a.state.id transaction availableBalance))

/-- `CommitDebit`. -/
def commitDebit (a : Account) (transaction : TransactionInfo) : Except BankException Account :=
  if a.state.typeOf transaction.transactionId ≠ some .debit then
    .error (.exception "Invalid transaction debit command for the target account.")
  else
    match Decimal.sub a.state.currentBalance transaction.amount with
    | none => .error .overflowException
    | some currentBalance =>
      .ok (a.onEvent (.accountDebitCommitted a.state.id transaction currentBalance))

/-- `CommitCredit`. -/
def commitCredit (a : Account) (transaction : TransactionInfo) : Except BankException Account :=
  if a.state.typeOf transaction.transactionId ≠ some .credit then
    .error (.exception "Invalid transaction credit command for the target account.")
  else
    match Decimal.add a.state.availableBalance transaction.amount,
      Decimal.add a.state.currentBalance transaction.amount with
    | some availableBalance, some currentBalance =>
      .ok (a.onEvent
        (.accountCreditCommitted a.state.id transaction availableBalance currentBalance))
    | _, _ => .error .overflowException

/-- `RevertDebitPreparation`. -/
def revertDebitPreparation (a : Account) (transaction : TransactionInfo) :
    Except BankException Account :=
  if a.state.typeOf transaction.transactionId = some .debit then
    match Decimal.add a.state.availableBalance transaction.amount with
    | none => .error .overflowException
    | some availableBalance =>
      .ok (a.onEvent (.accountDebitPreparationReverted a.state.id transaction availableBalance))
  else .ok a

/-- `RevertCreditPreparation`. -/
def revertCreditPreparation (a : Account) (transaction : TransactionInfo) :
    Except BankException Account :=
  if a.state.typeOf transaction.transactionId = some .credit then
    .ok (a.onEvent (.accountCreditPreparationReverted a.state.id transaction))
  else .ok a

end Account

end IFramework.Sample
