import IFramework.Sample.BankAccount

/-!
# Transfers

The aggregate `Transaction` of the sample: how far a transfer has come on its two accounts. It
counts as prepared when both preparations have been reported, and as completed when both commits
have. None of its operations looks at `Status`.
-/

namespace IFramework.Sample

open EventSourcing (AggregateRoot AggregateType)

/-- `BankTransactionStatus`. -/
inductive BankTransactionStatus where
  | initialized
  | prepared
  | prepareFailed
  | completed
  deriving DecidableEq, Repr

/-- The events of a transaction; each of them carries its `Info`. -/
inductive TransactionEvent where
  | transactionSubmitted (aggregateRootId : String) (transaction : Option TransactionInfo)
  | transactionDebitPrepared (aggregateRootId : String) (transaction : Option TransactionInfo)
  | transactionCreditPrepared (aggregateRootId : String) (transaction : Option TransactionInfo)
  | transactionFailed (aggregateRootId : String) (transaction : Option TransactionInfo)
      (failReason : String)
  | transactionPrepared (aggregateRootId : String) (transaction : Option TransactionInfo)
  | transactionDebitCommitted (aggregateRootId : String) (transaction : Option TransactionInfo)
  | transactionCreditCommitted (aggregateRootId : String) (transaction : Option TransactionInfo)
  | transactionCompleted (aggregateRootId : String) (transaction : Option TransactionInfo)
  deriving DecidableEq

/-- The property `Transaction`. -/
def TransactionEvent.transaction : TransactionEvent → Option TransactionInfo
  | .transactionSubmitted _ transaction | .transactionDebitPrepared _ transaction
  | .transactionCreditPrepared _ transaction | .transactionFailed _ transaction _
  | .transactionPrepared _ transaction | .transactionDebitCommitted _ transaction
  | .transactionCreditCommitted _ transaction | .transactionCompleted _ transaction => transaction

/-- What a `Transaction` holds. `Info` is null before `TransactionSubmitted`. -/
structure TransactionState where
  id : String
  info : Option TransactionInfo
  creditPrepared : Bool
  debitPrepared : Bool
  creditCommitted : Bool
  debitCommitted : Bool
  status : BankTransactionStatus
  remark : Option String
  deriving DecidableEq

namespace TransactionState

/-- The `Handle` methods. -/
def handle (t : TransactionState) : TransactionEvent → TransactionState
  | .transactionSubmitted id transaction =>
    { t with id, info := transaction, status := .initialized }
  | .transactionDebitPrepared .. => { t with debitPrepared := true }
  | .transactionCreditPrepared .. => { t with creditPrepared := true }
  | .transactionFailed _ _ failReason =>
    { t with remark := some failReason, status := .prepareFailed }
  | .transactionPrepared .. => { t with status := .prepared }
  | .transactionDebitCommitted .. => { t with debitCommitted := true }
  | .transactionCreditCommitted .. => { t with creditCommitted := true }
  | .transactionCompleted .. => { t with status := .completed }

/-- Transactions as aggregates of the event store. -/
def aggregateType : AggregateType TransactionState TransactionEvent where
  blank := ⟨"", none, false, false, false, false, .initialized, none⟩
  apply t event := t.handle event.payload

end TransactionState

/-- A `Transaction` with the queue of its events. -/
abbrev Transaction := AggregateRoot TransactionState TransactionEvent

namespace Transaction

/-- `OnEvent`. -/
def onEvent (t : Transaction) (event : TransactionEvent) : Transaction :=
  AggregateRoot.onEvent TransactionState.aggregateType t event

/-- The constructor with an id. -/
def new (id : String) (transactionInfo : TransactionInfo) : Transaction :=
  onEvent (AggregateRoot.createInstance TransactionState.aggregateType)
    (.transactionSubmitted id (some transactionInfo))

/-- `TryPrepare`. -/
def tryPrepare (t : Transaction) : Transaction :=
  if t.state.debitPrepared && t.state.creditPrepared then
    t.onEvent (.transactionPrepared t.state.id t.state.info)
  else t

/-- `PrepareDebit`. -/
def prepareDebit (t : Transaction) : Transaction :=
  (t.onEvent (.transactionDebitPrepared t.state.id t.state.info)).tryPrepare

/-- `PrepareCredit`. -/
def prepareCredit (t : Transaction) : Transaction :=
  (t.onEvent (.transactionCreditPrepared t.state.id t.state.info)).tryPrepare

/-- `FailPrepare`. -/
def failPrepare (t : Transaction) (failReason : String) : Transaction :=
  t.onEvent (.transactionFailed t.state.id t.state.info failReason)

/-- `TryComplete`. -/
def tryComplete (t : Transaction) : Transaction :=
  if t.state.debitCommitted && t.state.creditCommitted then
    t.onEvent (.transactionCompleted t.state.id t.state.info)
  else t

/-- `CommitDebit`. -/
def commitDebit (t : Transaction) : Transaction :=
  (t.onEvent (.transactionDebitCommitted t.state.id t.state.info)).tryComplete

/-- `CommitCredit`. -/
def commitCredit (t : Transaction) : Transaction :=
  (t.onEvent (.transactionCreditCommitted t.state.id t.state.info)).tryComplete

end Transaction

end IFramework.Sample
