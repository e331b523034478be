import IFramework.Sample.TransactionProcessManager
import IFramework.Theory.Run
import Mathlib.Algebra.Order.Group.Int

/-!
# The balances of the accounts

As long as the sums that the accounts compute are exact (`Exact`), in every state of the bank and
however often messages are redelivered, the available balance of an account is its current balance
less the debits prepared on it, and it does not become negative when the amounts are not
(`no_overdraft`).

A command of the saga carries the account it is sent to and the transaction of which it is part.
`Genuine` says that the two belong together and that the transaction has been submitted; it holds of
all messages since the process manager takes both from the event it handles (`Sound`).
-/

namespace IFramework.Sample

open EventSourcing (AggregateRoot Stored)

/-- The account of one side of a transaction. -/
def TransactionInfo.accountId (info : TransactionInfo) : TransactionType → String
  | .debit => info.debitAccountId
  | .credit => info.creditAccountId

/-- What the preparation of one side takes from the available balance. -/
def TransactionInfo.reservation (info : TransactionInfo) : TransactionType → Int
  | .debit => info.amount
  | .credit => 0

/-- The amounts of the prepared debits. -/
def BankAccount.reserved (a : BankAccount) : Int :=
  a.transactionStatements.total fun _ s => s.transaction.reservation s.type

/-! ## Messages that belong to a transaction -/

/-- The stored transactions. -/
abbrev Transactions := AList fun _ : String => Stored TransactionState

namespace Transactions

/-- The transaction has been submitted, with this information. -/
def Registered (ts : Transactions) (info : TransactionInfo) : Prop :=
  ∃ s, ts.lookup info.transactionId = some s ∧ s.state.info = some info

/-- The command is sent to an account of its transaction, or to the transaction itself. -/
def GenuineCommand (ts : Transactions) : Command → Prop
  | .createAccount .. | .submitTransaction .. => True
  | .prepareAccountCredit id info | .commitAccountCredit id info
  | .revertAccountCreditPreparation id info => id = info.creditAccountId ∧ ts.Registered info
  | .prepareAccountDebit id info | .commitAccountDebit id info
  | .revertAccountDebitPreparation id info => id = info.debitAccountId ∧ ts.Registered info
  | .prepareTransactionCredit id info | .prepareTransactionDebit id info
  | .commitTransactionCredit id info | .commitTransactionDebit id info
  | .failTransactionPreparation id info _ => id = info.transactionId ∧ ts.Registered info

/-- The message belongs to a submitted transaction, or to none. -/
def Genuine (ts : Transactions) : Message → Prop
  | .command c => ts.GenuineCommand c
  | .accountEvent e => ∀ info, e.transaction = some info → ts.Registered info
  | .transactionEvent e => ∃ info, e.transaction = some info ∧ ts.Registered info

/-- An account that keeps its books. -/
structure SoundAccount (ts : Transactions) (id : String) (a : BankAccount) : Prop where
  id_eq : a.id = id
  normal : a.status = .normal
  balance : a.availableBalance = a.currentBalance - a.reserved
  statements : ∀ transactionId s, a.transactionStatements.lookup transactionId = some s →
    s.transaction.transactionId = transactionId ∧ ts.Registered s.transaction ∧
      id = s.transaction.accountId s.type

/-- The other transactions are still known. -/
def Extends (ts ts' : Transactions) : Prop := ∀ info, ts.Registered info → ts'.Registered info

variable {ts ts' : Transactions}

theorem GenuineCommand.mono (h : Extends ts ts') {c : Command} (hc : ts.GenuineCommand c) :
    ts'.GenuineCommand c := by
  cases c <;> first | trivial | exact ⟨hc.1, h _ hc.2⟩

theorem Genuine.mono (h : Extends ts ts') {m : Message} (hm : ts.Genuine m) : ts'.Genuine m := by
  cases m with
  | command c => exact GenuineCommand.mono h hm
  | accountEvent e => exact fun info hinfo => h _ (hm info hinfo)
  | transactionEvent e => exact hm.imp fun _ hi => ⟨hi.1, h _ hi.2⟩

theorem SoundAccount.mono (h : Extends ts ts') {id : String} {a : BankAccount}
    (ha : ts.SoundAccount id a) : ts'.SoundAccount id a where
  id_eq := ha.id_eq
  normal := ha.normal
  balance := ha.balance
  statements transactionId s hs := by
    obtain ⟨hid, hreg, haccount⟩ := ha.statements transactionId s hs
    exact ⟨hid, h _ hreg, haccount⟩

/-- A transaction is known under one piece of information. -/
theorem Registered.unique {info info' : TransactionInfo} (h : ts.Registered info)
    (h' : ts.Registered info') (hid : info.transactionId = info'.transactionId) : info = info' := by
  obtain ⟨s, hs, hi⟩ := h
  obtain ⟨s', hs', hi'⟩ := h'
  rw [hid, hs'] at hs
  cases hs
  exact Option.some.inj (hi.symm.trans hi')

/-! ## The events of an account -/

namespace SoundAccount

variable {id : String} {a : BankAccount} {info : TransactionInfo}

/-- The statement of a transaction holds its information. -/
theorem lookup_of_typeOf (h : ts.SoundAccount id a) (hinfo : ts.Registered info)
    {type : TransactionType} (ht : a.typeOf info.transactionId = some type) :
    a.transactionStatements.lookup info.transactionId = some ⟨info, type⟩ := by
  obtain ⟨⟨info', type'⟩, hs, rfl⟩ := Option.map_eq_some_iff.1 ht
  obtain ⟨hid, hreg, -⟩ := h.statements _ _ hs
  obtain rfl : info' = info := hreg.unique hinfo hid
  exact hs

theorem account_of_typeOf (h : ts.SoundAccount id a) (hinfo : ts.Registered info)
    {type : TransactionType} (ht : a.typeOf info.transactionId = some type) :
    id = info.accountId type :=
  (h.statements _ _ (h.lookup_of_typeOf hinfo ht)).2.2

theorem reserved_erase (h : ts.SoundAccount id a) (hinfo : ts.Registered info)
    {type : TransactionType} (ht : a.typeOf info.transactionId = some type) :
    a.reserved = info.reservation type + BankAccount.reserved
      { a with transactionStatements := a.transactionStatements.erase info.transactionId } :=
  (AList.total_erase_of_lookup _ (h.lookup_of_typeOf hinfo ht)).symm

theorem statements_erase (h : ts.SoundAccount id a) {transactionId : String}
    {s : TransactionStatement}
    (hs : (a.transactionStatements.erase info.transactionId).lookup transactionId = some s) :
    s.transaction.transactionId = transactionId ∧ ts.Registered s.transaction ∧
      id = s.transaction.accountId s.type := by
  by_cases hid : transactionId = info.transactionId
  · rw [hid, AList.lookup_erase] at hs
    cases hs
  · rw [AList.lookup_erase_ne hid] at hs
    exact h.statements _ _ hs

theorem statements_insert (h : ts.SoundAccount id a) (hinfo : ts.Registered info)
    {type : TransactionType} (hid : id = info.accountId type) {transactionId : String}
    {s : TransactionStatement}
    (hs : (a.transactionStatements.insert info.transactionId ⟨info, type⟩).lookup transactionId =
      some s) :
    s.transaction.transactionId = transactionId ∧ ts.Registered s.transaction ∧
      id = s.transaction.accountId s.type := by
  by_cases ht : transactionId = info.transactionId
  · rw [ht, AList.lookup_insert] at hs
    cases hs
    exact ⟨ht.symm, hinfo, hid⟩
  · rw [AList.lookup_insert_ne ht] at hs
    exact h.statements _ _ hs

theorem creditPrepared (h : ts.SoundAccount id a) (hinfo : ts.Registered info)
    (hid : id = info.creditAccountId)
    (hnew : a.transactionStatements.lookup info.transactionId = none) (accountId : String) :
    ts.SoundAccount id (a.handle (.accountCreditPrepared accountId info)) where
  id_eq := h.id_eq
  normal := h.normal
  balance := by
    have := h.balance
    simp only [BankAccount.handle, BankAccount.reserved,
      AList.total_insert_of_lookup_none _ hnew, TransactionInfo.reservation] at this ⊢
    omega
  statements _ _ hs := h.statements_insert hinfo (show id = info.accountId .credit from hid) hs

theorem debitPrepared (h : ts.SoundAccount id a) (hinfo : ts.Registered info)
    (hid : id = info.debitAccountId)
    (hnew : a.transactionStatements.lookup info.transactionId = none) (accountId : String) :
    ts.SoundAccount id (a.handle
      (.accountDebitPrepared accountId info (a.availableBalance - info.amount))) where
  id_eq := h.id_eq
  normal := h.normal
  balance := by
    have := h.balance
    simp only [BankAccount.handle, BankAccount.reserved,
      AList.total_insert_of_lookup_none _ hnew, TransactionInfo.reservation] at this ⊢
    omega
  statements _ _ hs := h.statements_insert hinfo (show id = info.accountId .debit from hid) hs

theorem debitCommitted (h : ts.SoundAccount id a) (hinfo : ts.Registered info)
    (ht : a.typeOf info.transactionId = some .debit) (accountId : String) :
    ts.SoundAccount id (a.handle
      (.accountDebitCommitted accountId info (a.currentBalance - info.amount))) where
  id_eq := h.id_eq
  normal := h.normal
  balance := by
    have hbalance := h.balance
    have hreserved := h.reserved_erase hinfo ht
    simp only [BankAccount.handle, BankAccount.reserved, TransactionInfo.reservation]
      at hbalance hreserved ⊢
    omega
  statements _ _ hs := h.statements_erase hs

theorem creditCommitted (h : ts.SoundAccount id a) (hinfo : ts.Registered info)
    (ht : a.typeOf info.transactionId = some .credit) (accountId : String) :
    ts.SoundAccount id (a.handle (.accountCreditCommitted accountId info
      (a.availableBalance + info.amount) (a.currentBalance + info.amount))) where
  id_eq := h.id_eq
  normal := h.normal
  balance := by
    have hbalance := h.balance
    have hreserved := h.reserved_erase hinfo ht
    simp only [BankAccount.handle, BankAccount.reserved, TransactionInfo.reservation]
      at hbalance hreserved ⊢
    omega
  statements _ _ hs := h.statements_erase hs

theorem debitReverted (h : ts.SoundAccount id a) (hinfo : ts.Registered info)
    (ht : a.typeOf info.transactionId = some .debit) (accountId : String) :
    ts.SoundAccount id (a.handle (.accountDebitPreparationReverted accountId info
      (a.availableBalance + info.amount))) where
  id_eq := h.id_eq
  normal := h.normal
  balance := by
    have hbalance := h.balance
    have hreserved := h.reserved_erase hinfo ht
    simp only [BankAccount.handle, BankAccount.reserved, TransactionInfo.reservation]
      at hbalance hreserved ⊢
    omega
  statements _ _ hs := h.statements_erase hs

theorem creditReverted (h : ts.SoundAccount id a) (hinfo : ts.Registered info)
    (ht : a.typeOf info.transactionId = some .credit) (accountId : String) :
    ts.SoundAccount id (a.handle (.accountCreditPreparationReverted accountId info)) where
  id_eq := h.id_eq
  normal := h.normal
  balance := by
    have hbalance := h.balance
    have hreserved := h.reserved_erase hinfo ht
    simp only [BankAccount.handle, BankAccount.reserved, TransactionInfo.reservation]
      at hbalance hreserved ⊢
    omega
  statements _ _ hs := h.statements_erase hs

end SoundAccount

end Transactions

open Transactions

/-! ## The sums of a command -/

/-- The sums that a command makes an account compute, without rounding. -/
def BankAccount.sums (a : BankAccount) : Command → List Int
  | .prepareAccountDebit _ info =>
    if (a.transactionStatements.lookup info.transactionId).isSome ∨
        a.availableBalance < info.amount then []
    else [a.availableBalance - info.amount]
  | .commitAccountDebit _ info =>
    if a.typeOf info.transactionId = some .debit then [a.currentBalance - info.amount] else []
  | .commitAccountCredit _ info =>
    if a.typeOf info.transactionId = some .credit then
      [a.availableBalance + info.amount, a.currentBalance + info.amount]
    else []
  | .revertAccountDebitPreparation _ info =>
    if a.typeOf info.transactionId = some .debit then [a.availableBalance + info.amount] else []
  | _ => []

/-- The account whose balances a command changes. -/
def Command.accountId : Command → Option String
  | .prepareAccountDebit id _ | .commitAccountDebit id _ | .commitAccountCredit id _
  | .revertAccountDebitPreparation id _ => some id
  | _ => none

namespace Bank

variable {b : Bank}

/-- What holds of the bank in every state. -/
structure Sound (b : Bank) : Prop where
  messages : ∀ m ∈ b.messages, Genuine b.transactions m
  transactions : ∀ id s, b.transactions.lookup id = some s →
    s.state.id = id ∧ ∃ info, s.state.info = some info ∧ info.transactionId = id
  accounts : ∀ id s, b.accounts.lookup id = some s → SoundAccount b.transactions id s.state

theorem Sound.send (h : b.Sound) {ms : List Message}
    (hms : ∀ m ∈ ms, Genuine b.transactions m) : (b.send ms).Sound where
  messages m hm := (List.mem_append.1 hm).elim (h.messages m) (hms m)
  transactions := h.transactions
  accounts := h.accounts

/-- The sums that the handler of a command computes. -/
def sums (b : Bank) (c : Command) : List Int :=
  (c.accountId.bind b.accounts.lookup).elim [] fun s => s.state.sums c

/-- The sums that the delivery of a message computes. -/
def messageSums (b : Bank) : Message → List Int
  | .command c => b.sums c
  | _ => []

/-- The sums that are computed in a step. -/
def sumsOf (b : Bank) : Action → List Int
  | .deliver index | .redeliver index => b.messages[index]?.elim [] b.messageSums
  | _ => []

/-- The sums that are computed in a step are decimal numbers: nothing is rounded, and nothing
overflows. -/
def Exact (b : Bank) (a : Action) : Prop := ∀ n ∈ b.sumsOf a, Decimal.IsDecimal n

instance (b : Bank) (a : Action) : Decidable (b.Exact a) :=
  inferInstanceAs (Decidable (∀ n ∈ b.sumsOf a, Decimal.IsDecimal n))

theorem sums_of_lookup {id : String} {s : Stored BankAccount} (h : b.accounts.lookup id = some s)
    {c : Command} (hc : c.accountId = some id) : b.sums c = s.state.sums c := by
  rw [sums, hc, Option.bind_some, h]
  rfl

/-! ## What a handler does -/

/-- An event of an account is committed and published. -/
def post (b : Bank) (id : String) (s : Stored BankAccount) (event : AccountEvent) : Bank :=
  { b with accounts := b.accounts.insert id ⟨s.state.handle event, s.version + 1⟩ }.send
    [.accountEvent event]

section HandleAccount

variable {id : String} {s : Stored BankAccount} (c : Command)
  {operation : Account → Except BankException Account}

theorem handleAccount_of_none (h : b.accounts.lookup id = none) :
    b.handleAccount c id operation =
      b.fail c (.thrown (.domainException .objectNotExists [id])) := by
  simp [handleAccount, h]

theorem handleAccount_of_error (h : b.accounts.lookup id = some s) {e : BankException}
    (he : operation (AggregateRoot.load s) = .error e) :
    b.handleAccount c id operation = b.fail c (.thrown e) := by
  simp [handleAccount, h, he]

theorem handleAccount_of_same (h : b.accounts.lookup id = some s)
    (he : operation (AggregateRoot.load s) = .ok (AggregateRoot.load s)) :
    b.handleAccount c id operation = b := by
  simp only [handleAccount, h, he]
  rfl

theorem handleAccount_of_event (h : b.accounts.lookup id = some s) {event : AccountEvent}
    (he : operation (AggregateRoot.load s) = .ok (Account.onEvent (AggregateRoot.load s) event)) :
    b.handleAccount c id operation = b.post id s event := by
  simp only [handleAccount, h, he]
  rfl

end HandleAccount

theorem Sound.post (h : b.Sound) {id : String} {s : Stored BankAccount} {event : AccountEvent}
    (hs : SoundAccount b.transactions id (s.state.handle event))
    (he : Genuine b.transactions (.accountEvent event)) : (b.post id s event).Sound where
  messages m hm := by
    rcases List.mem_append.1 hm with hm | hm
    · exact h.messages m hm
    · rw [List.mem_singleton] at hm
      exact hm ▸ he
  transactions := h.transactions
  accounts id' s' hs' := by
    by_cases hid : id' = id
    · subst hid
      cases (AList.lookup_insert b.accounts).symm.trans hs'
      exact hs
    · exact h.accounts id' s' ((AList.lookup_insert_ne hid).symm.trans hs')

theorem Sound.fail (h : b.Sound) (c : Command) {f : Failure}
    (hf : ∀ event, f = .thrown (.onException event) →
      Genuine b.transactions (.accountEvent event)) : (b.fail c f).Sound := by
  have hb : { b with failures := b.failures ++ [(c, f)] : Bank }.Sound :=
    ⟨h.messages, h.transactions, h.accounts⟩
  unfold Bank.fail
  split
  · next event =>
    refine hb.send fun m hm => ?_
    rw [List.mem_singleton] at hm
    exact hm ▸ hf event rfl
  · exact hb

/-! ## The handlers, one by one -/

section Handlers

variable {id : String} {s : Stored BankAccount} {info : TransactionInfo}

theorem handle_prepareAccountCredit (h : b.Sound) (hs : b.accounts.lookup id = some s)
    (hid : id = info.creditAccountId) :
    b.handleCommand (.prepareAccountCredit id info) =
      if (s.state.transactionStatements.lookup info.transactionId).isSome then b
      else b.post id s (.accountCreditPrepared id info) := by
  have ha := h.accounts id s hs
  have hguard : info.creditAccountId = s.state.id := hid.symm.trans ha.id_eq.symm
  simp only [handleCommand]
  split
  · next hsome =>
    refine handleAccount_of_same _ hs ?_
    simp only [Account.prepareCredit, AggregateRoot.load, hsome, if_true]
  · next hnone =>
    refine handleAccount_of_event _ hs ?_
    simp [Account.prepareCredit, AggregateRoot.load, hnone, hguard, ha.normal, ← ha.id_eq]

theorem handle_prepareAccountDebit (h : b.Sound) (hs : b.accounts.lookup id = some s)
    (hid : id = info.debitAccountId)
    (hexact : ∀ n ∈ b.sums (.prepareAccountDebit id info), Decimal.IsDecimal n) :
    b.handleCommand (.prepareAccountDebit id info) =
      if (s.state.transactionStatements.lookup info.transactionId).isSome then b
      else if s.state.availableBalance < info.amount then
        b.fail (.prepareAccountDebit id info) (.thrown (.onException
          (.accountDebitPrepareFailed id info "Debit account is without enough funds.")))
      else b.post id s
        (.accountDebitPrepared id info (s.state.availableBalance - info.amount)) := by
  have ha := h.accounts id s hs
  have hguard : info.debitAccountId = s.state.id := hid.symm.trans ha.id_eq.symm
  simp only [handleCommand]
  split
  · next hsome =>
    refine handleAccount_of_same _ hs ?_
    simp only [Account.prepareDebit, AggregateRoot.load, hsome, if_true]
  · next hnone =>
    split
    · next hfunds =>
      refine handleAccount_of_error _ hs ?_
      simp [Account.prepareDebit, AggregateRoot.load, hnone, hguard, ha.normal, hfunds, ← ha.id_eq]
    · next hfunds =>
      have hsum : Decimal.sub s.state.availableBalance info.amount =
          some (s.state.availableBalance - info.amount) := by
        apply Decimal.sub_of_isDecimal
        apply hexact
        rw [sums_of_lookup hs rfl, BankAccount.sums, if_neg (not_or.2 ⟨hnone, hfunds⟩)]
        exact List.mem_singleton_self _
      refine handleAccount_of_event _ hs ?_
      simp [Account.prepareDebit, AggregateRoot.load, hnone, hguard, ha.normal, hfunds, hsum,
        ← ha.id_eq]

theorem handle_commitAccountCredit (h : b.Sound) (hs : b.accounts.lookup id = some s)
    (hexact : ∀ n ∈ b.sums (.commitAccountCredit id info), Decimal.IsDecimal n) :
    b.handleCommand (.commitAccountCredit id info) =
      if s.state.typeOf info.transactionId = some .credit then
        b.post id s (.accountCreditCommitted id info (s.state.availableBalance + info.amount)
          (s.state.currentBalance + info.amount))
      else b.fail (.commitAccountCredit id info)
        (.thrown (.exception "Invalid transaction credit command for the target account.")) := by
  have hid := (h.accounts id s hs).id_eq
  simp only [handleCommand]
  split
  · next htype =>
    have hsums : b.sums (.commitAccountCredit id info) =
        [s.state.availableBalance + info.amount, s.state.currentBalance + info.amount] := by
      rw [sums_of_lookup hs rfl, BankAccount.sums, if_pos htype]
    rw [hsums] at hexact
    have havailable := Decimal.add_of_isDecimal (hexact _ List.mem_cons_self)
    have hcurrent := Decimal.add_of_isDecimal (hexact _ (List.mem_cons_of_mem _
      (List.mem_singleton_self _)))
    refine handleAccount_of_event _ hs ?_
    simp [Account.commitCredit, AggregateRoot.load, htype, hid, havailable, hcurrent]
  · next htype =>
    refine handleAccount_of_error _ hs ?_
    simp [Account.commitCredit, AggregateRoot.load, htype]

theorem handle_commitAccountDebit (h : b.Sound) (hs : b.accounts.lookup id = some s)
    (hexact : ∀ n ∈ b.sums (.commitAccountDebit id info), Decimal.IsDecimal n) :
    b.handleCommand (.commitAccountDebit id info) =
      if s.state.typeOf info.transactionId = some .debit then
        b.post id s (.accountDebitCommitted id info (s.state.currentBalance - info.amount))
      else b.fail (.commitAccountDebit id info)
        (.thrown (.exception "Invalid transaction debit command for the target account.")) := by
  have hid := (h.accounts id s hs).id_eq
  simp only [handleCommand]
  split
  · next htype =>
    have hsum : Decimal.sub s.state.currentBalance info.amount =
        some (s.state.currentBalance - info.amount) := by
      apply Decimal.sub_of_isDecimal
      apply hexact
      rw [sums_of_lookup hs rfl, BankAccount.sums, if_pos htype]
      exact List.mem_singleton_self _
    refine handleAccount_of_event _ hs ?_
    simp [Account.commitDebit, AggregateRoot.load, htype, hid, hsum]
  · next htype =>
    refine handleAccount_of_error _ hs ?_
    simp [Account.commitDebit, AggregateRoot.load, htype]

theorem handle_revertAccountDebitPreparation (h : b.Sound)
    (hs : b.accounts.lookup id = some s)
    (hexact : ∀ n ∈ b.sums (.revertAccountDebitPreparation id info), Decimal.IsDecimal n) :
    b.handleCommand (.revertAccountDebitPreparation id info) =
      if s.state.typeOf info.transactionId = some .debit then
        b.post id s
          (.accountDebitPreparationReverted id info (s.state.availableBalance + info.amount))
      else b := by
  have hid := (h.accounts id s hs).id_eq
  simp only [handleCommand]
  split
  · next htype =>
    have hsum : Decimal.add s.state.availableBalance info.amount =
        some (s.state.availableBalance + info.amount) := by
      apply Decimal.add_of_isDecimal
      apply hexact
      rw [sums_of_lookup hs rfl, BankAccount.sums, if_pos htype]
      exact List.mem_singleton_self _
    refine handleAccount_of_event _ hs ?_
    simp [Account.revertDebitPreparation, AggregateRoot.load, htype, hid, hsum]
  · next htype =>
    refine handleAccount_of_same _ hs ?_
    simp [Account.revertDebitPreparation, AggregateRoot.load, htype]

theorem handle_revertAccountCreditPreparation (h : b.Sound)
    (hs : b.accounts.lookup id = some s) :
    b.handleCommand (.revertAccountCreditPreparation id info) =
      if s.state.typeOf info.transactionId = some .credit then
        b.post id s (.accountCreditPreparationReverted id info)
      else b := by
  have hid := (h.accounts id s hs).id_eq
  simp only [handleCommand]
  split
  · next htype =>
    refine handleAccount_of_event _ hs ?_
    simp [Account.revertCreditPreparation, AggregateRoot.load, htype, hid]
  · next htype =>
    refine handleAccount_of_same _ hs ?_
    simp [Account.revertCreditPreparation, AggregateRoot.load, htype]

/-- `CreateAccount`. -/
theorem handle_createAccount {name cardId : String} {amount : Int}
    (hnone : b.accounts.lookup id = none) :
    b.handleCommand (.createAccount id name cardId amount) =
      ({ b with opened := b.opened + amount }.post id ⟨BankAccount.aggregateType.blank, 0⟩
        (.accountCreated id amount name cardId)) := by
  simp only [handleCommand, hnone]
  rfl

end Handlers

/-! ## Transactions -/

section Transactions

variable {info : TransactionInfo}

/-- A transaction with this information, which its new events carry. -/
structure Carries (info : TransactionInfo) (t : Transaction) : Prop where
  id_eq : t.state.id = info.transactionId
  info_eq : t.state.info = some info
  events : ∀ e ∈ t.eventQueue, e.payload.transaction = some info

theorem Carries.load {s : Stored TransactionState} (hid : s.state.id = info.transactionId)
    (hinfo : s.state.info = some info) : Carries info (AggregateRoot.load s) :=
  ⟨hid, hinfo, by simp [AggregateRoot.load]⟩

theorem Carries.onEvent {t : Transaction} (h : Carries info t) {e : TransactionEvent}
    (he : e.transaction = some info)
    (hid : (t.state.handle e).id = t.state.id) : Carries info (t.onEvent e) where
  id_eq := hid.trans h.id_eq
  info_eq := by
    have hinfo := h.info_eq
    cases e <;> first | exact hinfo | exact he
  events e' he' := by
    rcases List.mem_append.1 he' with he' | he'
    · exact h.events e' he'
    · rw [List.mem_singleton] at he'
      rw [he']
      exact he

theorem Carries.prepareDebit {t : Transaction} (h : Carries info t) :
    Carries info t.prepareDebit := by
  have h' := h.onEvent (e := .transactionDebitPrepared t.state.id t.state.info) h.info_eq rfl
  unfold Transaction.prepareDebit Transaction.tryPrepare
  split
  · exact h'.onEvent h'.info_eq rfl
  · exact h'

theorem Carries.prepareCredit {t : Transaction} (h : Carries info t) :
    Carries info t.prepareCredit := by
  have h' := h.onEvent (e := .transactionCreditPrepared t.state.id t.state.info) h.info_eq rfl
  unfold Transaction.prepareCredit Transaction.tryPrepare
  split
  · exact h'.onEvent h'.info_eq rfl
  · exact h'

theorem Carries.commitDebit {t : Transaction} (h : Carries info t) :
    Carries info t.commitDebit := by
  have h' := h.onEvent (e := .transactionDebitCommitted t.state.id t.state.info) h.info_eq rfl
  unfold Transaction.commitDebit Transaction.tryComplete
  split
  · exact h'.onEvent h'.info_eq rfl
  · exact h'

theorem Carries.commitCredit {t : Transaction} (h : Carries info t) :
    Carries info t.commitCredit := by
  have h' := h.onEvent (e := .transactionCreditCommitted t.state.id t.state.info) h.info_eq rfl
  unfold Transaction.commitCredit Transaction.tryComplete
  split
  · exact h'.onEvent h'.info_eq rfl
  · exact h'

theorem Carries.failPrepare {t : Transaction} (h : Carries info t) (reason : String) :
    Carries info (t.failPrepare reason) :=
  h.onEvent h.info_eq rfl

theorem Carries.new : Carries info (Transaction.new info.transactionId info) where
  id_eq := rfl
  info_eq := rfl
  events := by
    intro e he
    cases List.mem_singleton.1 he
    rfl

/-- A transaction that is stored under its id, in place of one with the same information. -/
theorem Sound.saveTransaction (h : b.Sound) {t : Transaction} (ht : Carries info t)
    (hold : ∀ s, b.transactions.lookup info.transactionId = some s → s.state.info = some info) :
    (b.saveTransaction info.transactionId t).Sound := by
  have hext : Extends b.transactions (b.transactions.insert info.transactionId t.store) := by
    rintro info' ⟨s, hs, hinfo'⟩
    by_cases hid : info'.transactionId = info.transactionId
    · have heq : info' = info := by
        rw [hid] at hs
        exact Option.some.inj (hinfo'.symm.trans (hold s hs))
      subst heq
      exact ⟨t.store, AList.lookup_insert _, ht.info_eq⟩
    · exact ⟨s, (AList.lookup_insert_ne hid).trans hs, hinfo'⟩
  have hreg : Registered (b.transactions.insert info.transactionId t.store) info :=
    ⟨t.store, AList.lookup_insert _, ht.info_eq⟩
  unfold Bank.saveTransaction
  split
  · exact h
  · refine ⟨fun m hm => ?_, fun id s hs => ?_, fun id s hs => (h.accounts id s hs).mono hext⟩
    · rcases List.mem_append.1 hm with hm | hm
      · exact (h.messages m hm).mono hext
      · obtain ⟨e, he, rfl⟩ := List.mem_map.1 hm
        exact ⟨info, ht.events e he, hreg⟩
    · by_cases hid : id = info.transactionId
      · subst hid
        cases (AList.lookup_insert b.transactions).symm.trans hs
        exact ⟨ht.id_eq, info, ht.info_eq, rfl⟩
      · exact h.transactions id s ((AList.lookup_insert_ne hid).symm.trans hs)

theorem handleTransaction_of_registered {s : Stored TransactionState}
    (hs : b.transactions.lookup info.transactionId = some s) (c : Command)
    (operation : Transaction → Transaction) (finish : Transaction → Option TransactionResult) :
    b.handleTransaction c info.transactionId operation finish =
      { b.saveTransaction info.transactionId (operation (AggregateRoot.load s)) with
        results := b.results ++ ((finish (operation (AggregateRoot.load s))).map
          fun result => (info.transactionId, result)).toList } := by
  simp only [handleTransaction, hs]

theorem Sound.handleTransaction (h : b.Sound) (hinfo : Registered b.transactions info)
    (c : Command) {operation : Transaction → Transaction}
    (hop : ∀ t, Carries info t → Carries info (operation t))
    (finish : Transaction → Option TransactionResult) :
    (b.handleTransaction c info.transactionId operation finish).Sound := by
  obtain ⟨s, hs, hi⟩ := hinfo
  have hid : s.state.id = info.transactionId := (h.transactions _ _ hs).1
  rw [handleTransaction_of_registered hs]
  have hsave := h.saveTransaction (hop _ (Carries.load hid hi)) fun s' hs' => by
    cases hs.symm.trans hs'
    exact hi
  exact ⟨hsave.messages, hsave.transactions, hsave.accounts⟩

end Transactions

/-! ## Every step -/

theorem Sound.handleCommand (h : b.Sound) {c : Command} (hc : GenuineCommand b.transactions c)
    (hexact : ∀ n ∈ b.sums c, Decimal.IsDecimal n) : (b.handleCommand c).Sound := by
  have hthrow : ∀ (c : Command) (e : BankException), (∀ event, e ≠ .onException event) →
      (b.fail c (.thrown e)).Sound := fun c e he =>
    h.fail c fun event hevent => absurd (Failure.thrown.inj hevent) (he event)
  -- A command of the saga whose account does not exist.
  have hmissing : ∀ {id : String} (operation : Account → Except BankException Account),
      b.accounts.lookup id = none → (b.handleAccount c id operation).Sound := by
    intro id operation hnone
    rw [handleAccount_of_none c hnone]
    exact hthrow _ _ nofun
  cases c with
  | createAccount id name cardId amount =>
    cases hs : b.accounts.lookup id with
    | some s =>
      simp only [Bank.handleCommand, hs]
      exact hthrow _ _ nofun
    | none =>
      rw [handle_createAccount hs]
      have hb : { b with opened := b.opened + amount : Bank }.Sound :=
        ⟨h.messages, h.transactions, h.accounts⟩
      refine hb.post ⟨rfl, rfl, ?_, by rintro _ _ ⟨⟩⟩ nofun
      simp [BankAccount.handle, BankAccount.reserved, BankAccount.aggregateType]
  | prepareAccountCredit id info =>
    obtain ⟨hid, hinfo⟩ := hc
    cases hs : b.accounts.lookup id with
    | none =>
      simp only [Bank.handleCommand]
      exact hmissing _ hs
    | some s =>
      rw [handle_prepareAccountCredit h hs hid]
      split
      · exact h
      · next hnew =>
        exact h.post ((h.accounts id s hs).creditPrepared hinfo hid
          (Option.not_isSome_iff_eq_none.1 hnew) id) (by rintro _ ⟨⟩; exact hinfo)
  | prepareAccountDebit id info =>
    obtain ⟨hid, hinfo⟩ := hc
    cases hs : b.accounts.lookup id with
    | none =>
      simp only [Bank.handleCommand]
      exact hmissing _ hs
    | some s =>
      rw [handle_prepareAccountDebit h hs hid hexact]
      split
      · exact h
      · next hnew =>
        split
        · refine h.fail _ ?_
          rintro _ ⟨⟩ _ ⟨⟩
          exact hinfo
        · exact h.post ((h.accounts id s hs).debitPrepared hinfo hid
            (Option.not_isSome_iff_eq_none.1 hnew) id) (by rintro _ ⟨⟩; exact hinfo)
  | commitAccountCredit id info =>
    obtain ⟨-, hinfo⟩ := hc
    cases hs : b.accounts.lookup id with
    | none =>
      simp only [Bank.handleCommand]
      exact hmissing _ hs
    | some s =>
      rw [handle_commitAccountCredit h hs hexact]
      split
      · next htype =>
        exact h.post ((h.accounts id s hs).creditCommitted hinfo htype id)
          (by rintro _ ⟨⟩; exact hinfo)
      · exact hthrow _ _ nofun
  | commitAccountDebit id info =>
    obtain ⟨-, hinfo⟩ := hc
    cases hs : b.accounts.lookup id with
    | none =>
      simp only [Bank.handleCommand]
      exact hmissing _ hs
    | some s =>
      rw [handle_commitAccountDebit h hs hexact]
      split
      · next htype =>
        exact h.post ((h.accounts id s hs).debitCommitted hinfo htype id)
          (by rintro _ ⟨⟩; exact hinfo)
      · exact hthrow _ _ nofun
  | revertAccountDebitPreparation id info =>
    obtain ⟨-, hinfo⟩ := hc
    cases hs : b.accounts.lookup id with
    | none =>
      simp only [Bank.handleCommand]
      exact hmissing _ hs
    | some s =>
      rw [handle_revertAccountDebitPreparation h hs hexact]
      split
      · next htype =>
        exact h.post ((h.accounts id s hs).debitReverted hinfo htype id)
          (by rintro _ ⟨⟩; exact hinfo)
      · exact h
  | revertAccountCreditPreparation id info =>
    obtain ⟨-, hinfo⟩ := hc
    cases hs : b.accounts.lookup id with
    | none =>
      simp only [Bank.handleCommand]
      exact hmissing _ hs
    | some s =>
      rw [handle_revertAccountCreditPreparation h hs]
      split
      · next htype =>
        exact h.post ((h.accounts id s hs).creditReverted hinfo htype id)
          (by rintro _ ⟨⟩; exact hinfo)
      · exact h
  | submitTransaction id debitAccountId creditAccountId amount =>
    simp only [Bank.handleCommand]
    split
    · exact hthrow _ _ nofun
    · next info hnew =>
      obtain ⟨rfl, -⟩ := TransactionInfo.of_new hnew
      split
      · exact h.fail _ nofun
      · next hnone => exact h.saveTransaction Carries.new fun s hs => by cases hnone.symm.trans hs
  | prepareTransactionCredit id info =>
    obtain ⟨rfl, hinfo⟩ := hc
    simp only [Bank.handleCommand]
    exact h.handleTransaction hinfo _ (fun _ ht => ht.prepareCredit) _
  | prepareTransactionDebit id info =>
    obtain ⟨rfl, hinfo⟩ := hc
    simp only [Bank.handleCommand]
    exact h.handleTransaction hinfo _ (fun _ ht => ht.prepareDebit) _
  | commitTransactionCredit id info =>
    obtain ⟨rfl, hinfo⟩ := hc
    simp only [Bank.handleCommand]
    exact h.handleTransaction hinfo _ (fun _ ht => ht.commitCredit) _
  | commitTransactionDebit id info =>
    obtain ⟨rfl, hinfo⟩ := hc
    simp only [Bank.handleCommand]
    exact h.handleTransaction hinfo _ (fun _ ht => ht.commitDebit) _
  | failTransactionPreparation id info reason =>
    obtain ⟨rfl, hinfo⟩ := hc
    simp only [Bank.handleCommand]
    exact h.handleTransaction hinfo _ (fun _ ht => ht.failPrepare reason) _

/-- The process manager sends commands that belong to the transaction of the event. -/
theorem genuine_processManager {ts : Transactions} {m : Message} (hm : ts.Genuine m) :
    ∀ c ∈ processManager m, ts.GenuineCommand c := by
  unfold processManager
  split
  all_goals
    simp only [List.forall_mem_cons, List.not_mem_nil, false_imp_iff, implies_true, and_true]
  case h_1 info | h_6 info =>
    obtain ⟨_, ⟨⟩, hinfo⟩ := hm
    exact ⟨⟨rfl, hinfo⟩, rfl, hinfo⟩
  case h_2 info _ | h_3 info | h_7 info _ _ | h_8 info _ => exact ⟨rfl, hm info rfl⟩
  case h_4 info _ | h_5 info _ => exact ⟨⟨rfl, hm info rfl⟩, rfl, hm info rfl⟩

theorem Sound.handle (h : b.Sound) {m : Message} (hm : Genuine b.transactions m)
    (hexact : ∀ n ∈ b.messageSums m, Decimal.IsDecimal n) :
    (b.handle m).Sound := by
  have hsend : (b.send ((processManager m).map .command)).Sound := h.send fun m' hm' => by
    obtain ⟨c, hc, rfl⟩ := List.mem_map.1 hm'
    exact genuine_processManager hm c hc
  cases m with
  | command c => exact h.handleCommand hm hexact
  | accountEvent e => exact hsend
  | transactionEvent e => exact hsend

/-- What the condition says of a delivery. -/
theorem Exact.message {index : Nat} {m : Message} (h : b.Exact (.deliver index))
    (hm : b.messages[index]? = some m) : ∀ n ∈ b.messageSums m, Decimal.IsDecimal n := by
  intro n hn
  apply h n
  simpa [sumsOf, hm] using hn

theorem Sound.step (h : b.Sound) {a : Action} {b' : Bank} (hexact : b.Exact a)
    (hstep : step b a = some b') : b'.Sound := by
  cases a with
  | createAccount =>
    cases hstep
    exact h.send fun m hm => by cases List.mem_singleton.1 hm; trivial
  | submitTransaction =>
    cases hstep
    exact h.send fun m hm => by cases List.mem_singleton.1 hm; trivial
  | deliver index =>
    obtain ⟨m, hm, rfl⟩ := Option.map_eq_some_iff.1 hstep
    have hrest : { b with messages := b.messages.eraseIdx index : Bank }.Sound :=
      ⟨fun m' hm' => h.messages m' (List.mem_of_mem_eraseIdx hm'), h.transactions, h.accounts⟩
    have hsums : ∀ n ∈ b.messageSums m, Decimal.IsDecimal n := Exact.message hexact hm
    exact hrest.handle (h.messages m (List.mem_of_getElem? hm)) hsums
  | redeliver index =>
    obtain ⟨m, hm, rfl⟩ := Option.map_eq_some_iff.1 hstep
    exact h.handle (h.messages m (List.mem_of_getElem? hm)) (Exact.message hexact hm)

theorem sound_init : init.Sound where
  messages _ hm := absurd hm List.not_mem_nil
  transactions _ _ hs := absurd hs (by simp [init])
  accounts _ _ hs := absurd hs (by simp [init])

theorem sound_of_run {actions : List Action} (hexact : Machine.Along step Exact init actions)
    (hrun : Machine.run step init actions = some b) : b.Sound :=
  hexact.invariant Sound (fun _ _ _ h he hstep => h.step he hstep) sound_init hrun

/-! ## Amounts that are not negative -/

/-- The amount that a client asks for is not negative. -/
def Action.Nonnegative : Action → Prop
  | .createAccount _ _ _ amount | .submitTransaction _ _ _ amount => 0 ≤ amount
  | _ => True

/-- What a client asks for, in a message that is still under way. -/
def NonnegativeMessage : Message → Prop
  | .command (.createAccount _ _ _ amount) | .command (.submitTransaction _ _ _ amount) =>
    0 ≤ amount
  | _ => True

/-- No amount is negative, and no account is overdrawn. -/
structure Solvent (b : Bank) : Prop where
  messages : ∀ m ∈ b.messages, NonnegativeMessage m
  transactions : ∀ info, Registered b.transactions info → 0 ≤ info.amount
  accounts : ∀ id s, b.accounts.lookup id = some s → 0 ≤ s.state.availableBalance

theorem Solvent.send (h : b.Solvent) {ms : List Message} (hms : ∀ m ∈ ms, NonnegativeMessage m) :
    (b.send ms).Solvent where
  messages m hm := (List.mem_append.1 hm).elim (h.messages m) (hms m)
  transactions := h.transactions
  accounts := h.accounts

theorem Solvent.post (h : b.Solvent) {id : String} {s : Stored BankAccount}
    {event : AccountEvent} (hs : 0 ≤ (s.state.handle event).availableBalance) :
    (b.post id s event).Solvent where
  messages m hm := by
    rcases List.mem_append.1 hm with hm | hm
    · exact h.messages m hm
    · rw [List.mem_singleton.1 hm]
      trivial
  transactions := h.transactions
  accounts id' s' hs' := by
    by_cases hid : id' = id
    · subst hid
      cases (AList.lookup_insert b.accounts).symm.trans hs'
      exact hs
    · exact h.accounts id' s' ((AList.lookup_insert_ne hid).symm.trans hs')

theorem Solvent.fail (h : b.Solvent) (c : Command) (f : Failure) : (b.fail c f).Solvent := by
  have hb : { b with failures := b.failures ++ [(c, f)] : Bank }.Solvent :=
    ⟨h.messages, h.transactions, h.accounts⟩
  unfold Bank.fail
  split
  · refine hb.send fun m hm => ?_
    rw [List.mem_singleton.1 hm]
    trivial
  · exact hb

theorem Solvent.saveTransaction (h : b.Solvent) {info : TransactionInfo} {t : Transaction}
    (ht : Carries info t) (hamount : 0 ≤ info.amount) :
    (b.saveTransaction info.transactionId t).Solvent := by
  unfold Bank.saveTransaction
  split
  · exact h
  · refine ⟨fun m hm => ?_, fun info' hinfo' => ?_, h.accounts⟩
    · rcases List.mem_append.1 hm with hm | hm
      · exact h.messages m hm
      · obtain ⟨e, -, rfl⟩ := List.mem_map.1 hm
        trivial
    · obtain ⟨s, hs, hi⟩ := hinfo'
      by_cases hid : info'.transactionId = info.transactionId
      · rw [hid] at hs
        cases (AList.lookup_insert b.transactions).symm.trans hs
        cases ht.info_eq.symm.trans hi
        exact hamount
      · exact h.transactions info' ⟨s, (AList.lookup_insert_ne hid).symm.trans hs, hi⟩

theorem Solvent.handleTransaction (h : b.Solvent) (hsound : b.Sound) {info : TransactionInfo}
    (hinfo : Registered b.transactions info) (c : Command)
    {operation : Transaction → Transaction}
    (hop : ∀ t, Carries info t → Carries info (operation t))
    (finish : Transaction → Option TransactionResult) :
    (b.handleTransaction c info.transactionId operation finish).Solvent := by
  have hamount := h.transactions info hinfo
  obtain ⟨s, hs, hi⟩ := hinfo
  have hid : s.state.id = info.transactionId := (hsound.transactions _ _ hs).1
  rw [handleTransaction_of_registered hs]
  have hsave := h.saveTransaction (hop _ (Carries.load hid hi)) hamount
  exact ⟨hsave.messages, hsave.transactions, hsave.accounts⟩

theorem Solvent.handleCommand (h : b.Solvent) (hsound : b.Sound) {c : Command}
    (hc : GenuineCommand b.transactions c) (hamount : NonnegativeMessage (.command c))
    (hexact : ∀ n ∈ b.sums c, Decimal.IsDecimal n) : (b.handleCommand c).Solvent := by
  have hmissing : ∀ {id : String} (operation : Account → Except BankException Account),
      b.accounts.lookup id = none → (b.handleAccount c id operation).Solvent := by
    intro id operation hnone
    rw [handleAccount_of_none c hnone]
    exact h.fail _ _
  cases c with
  | createAccount id name cardId amount =>
    cases hs : b.accounts.lookup id with
    | some s =>
      simp only [Bank.handleCommand, hs]
      exact h.fail _ _
    | none =>
      rw [handle_createAccount hs]
      have hb : { b with opened := b.opened + amount : Bank }.Solvent :=
        ⟨h.messages, h.transactions, h.accounts⟩
      exact hb.post hamount
  | prepareAccountCredit id info =>
    cases hs : b.accounts.lookup id with
    | none =>
      simp only [Bank.handleCommand]
      exact hmissing _ hs
    | some s =>
      rw [handle_prepareAccountCredit hsound hs hc.1]
      split
      · exact h
      · exact h.post (h.accounts id s hs)
  | prepareAccountDebit id info =>
    cases hs : b.accounts.lookup id with
    | none =>
      simp only [Bank.handleCommand]
      exact hmissing _ hs
    | some s =>
      rw [handle_prepareAccountDebit hsound hs hc.1 hexact]
      split
      · exact h
      · split
        · exact h.fail _ _
        · next hfunds => exact h.post (Int.sub_nonneg_of_le (Int.not_lt.1 hfunds))
  | commitAccountCredit id info =>
    cases hs : b.accounts.lookup id with
    | none =>
      simp only [Bank.handleCommand]
      exact hmissing _ hs
    | some s =>
      rw [handle_commitAccountCredit hsound hs hexact]
      split
      · exact h.post (add_nonneg (h.accounts id s hs) (h.transactions info hc.2))
      · exact h.fail _ _
  | commitAccountDebit id info =>
    cases hs : b.accounts.lookup id with
    | none =>
      simp only [Bank.handleCommand]
      exact hmissing _ hs
    | some s =>
      rw [handle_commitAccountDebit hsound hs hexact]
      split
      · exact h.post (h.accounts id s hs)
      · exact h.fail _ _
  | revertAccountDebitPreparation id info =>
    cases hs : b.accounts.lookup id with
    | none =>
      simp only [Bank.handleCommand]
      exact hmissing _ hs
    | some s =>
      rw [handle_revertAccountDebitPreparation hsound hs hexact]
      split
      · exact h.post (add_nonneg (h.accounts id s hs) (h.transactions info hc.2))
      · exact h
  | revertAccountCreditPreparation id info =>
    cases hs : b.accounts.lookup id with
    | none =>
      simp only [Bank.handleCommand]
      exact hmissing _ hs
    | some s =>
      rw [handle_revertAccountCreditPreparation hsound hs]
      split
      · exact h.post (h.accounts id s hs)
      · exact h
  | submitTransaction id debitAccountId creditAccountId amount =>
    simp only [Bank.handleCommand]
    split
    · exact h.fail _ _
    · next info hnew =>
      obtain ⟨rfl, -, -, rfl⟩ := TransactionInfo.of_new hnew
      split
      · exact h.fail _ _
      · exact h.saveTransaction Carries.new hamount
  | prepareTransactionCredit id info =>
    obtain ⟨rfl, hinfo⟩ := hc
    simp only [Bank.handleCommand]
    exact h.handleTransaction hsound hinfo _ (fun _ ht => ht.prepareCredit) _
  | prepareTransactionDebit id info =>
    obtain ⟨rfl, hinfo⟩ := hc
    simp only [Bank.handleCommand]
    exact h.handleTransaction hsound hinfo _ (fun _ ht => ht.prepareDebit) _
  | commitTransactionCredit id info =>
    obtain ⟨rfl, hinfo⟩ := hc
    simp only [Bank.handleCommand]
    exact h.handleTransaction hsound hinfo _ (fun _ ht => ht.commitCredit) _
  | commitTransactionDebit id info =>
    obtain ⟨rfl, hinfo⟩ := hc
    simp only [Bank.handleCommand]
    exact h.handleTransaction hsound hinfo _ (fun _ ht => ht.commitDebit) _
  | failTransactionPreparation id info reason =>
    obtain ⟨rfl, hinfo⟩ := hc
    simp only [Bank.handleCommand]
    exact h.handleTransaction hsound hinfo _ (fun _ ht => ht.failPrepare reason) _

/-- The process manager creates nothing of its own. -/
theorem nonnegative_processManager (m : Message) :
    ∀ c ∈ processManager m, NonnegativeMessage (.command c) := by
  unfold processManager
  split <;> simp [NonnegativeMessage]

theorem Solvent.handle (h : b.Solvent) (hsound : b.Sound) {m : Message}
    (hm : Genuine b.transactions m) (hamount : NonnegativeMessage m)
    (hexact : ∀ n ∈ b.messageSums m, Decimal.IsDecimal n) :
    (b.handle m).Solvent := by
  have hsend : (b.send ((processManager m).map .command)).Solvent := h.send fun m' hm' => by
    obtain ⟨c, hc, rfl⟩ := List.mem_map.1 hm'
    exact nonnegative_processManager m c hc
  cases m with
  | command c => exact h.handleCommand hsound hm hamount hexact
  | accountEvent e => exact hsend
  | transactionEvent e => exact hsend

theorem Solvent.step (h : b.Solvent) (hsound : b.Sound) {a : Action} (ha : a.Nonnegative)
    (hexact : b.Exact a) {b' : Bank} (hstep : Bank.step b a = some b') : b'.Solvent := by
  cases a with
  | createAccount =>
    cases hstep
    exact h.send fun m hm => by cases List.mem_singleton.1 hm; exact ha
  | submitTransaction =>
    cases hstep
    exact h.send fun m hm => by cases List.mem_singleton.1 hm; exact ha
  | deliver index =>
    obtain ⟨m, hm, rfl⟩ := Option.map_eq_some_iff.1 hstep
    have hmem := List.mem_of_getElem? hm
    have hrest : { b with messages := b.messages.eraseIdx index : Bank }.Solvent :=
      ⟨fun m' hm' => h.messages m' (List.mem_of_mem_eraseIdx hm'), h.transactions, h.accounts⟩
    have hsound' : { b with messages := b.messages.eraseIdx index : Bank }.Sound :=
      ⟨fun m' hm' => hsound.messages m' (List.mem_of_mem_eraseIdx hm'), hsound.transactions,
        hsound.accounts⟩
    have hsums : ∀ n ∈ b.messageSums m, Decimal.IsDecimal n := Exact.message hexact hm
    exact hrest.handle hsound' (hsound.messages m hmem) (h.messages m hmem) hsums
  | redeliver index =>
    obtain ⟨m, hm, rfl⟩ := Option.map_eq_some_iff.1 hstep
    have hmem := List.mem_of_getElem? hm
    exact h.handle hsound (hsound.messages m hmem) (h.messages m hmem) (Exact.message hexact hm)

theorem solvent_init : init.Solvent where
  messages _ hm := absurd hm List.not_mem_nil
  transactions _ := by
    rintro ⟨_, hs, -⟩
    exact absurd hs (by simp [init])
  accounts _ _ hs := absurd hs (by simp [init])

/-- Whatever arrives in whichever order and however often, as long as every sum is exact: what is
available on an account is what it holds less the debits prepared on it, and when no client asks for
a negative amount, neither is negative. -/
theorem no_overdraft {actions : List Action} (hexact : Machine.Along step Exact init actions)
    (hrun : Machine.run step init actions = some b) {id : String} {s : Stored BankAccount}
    (hs : b.accounts.lookup id = some s) :
    s.state.availableBalance = s.state.currentBalance - s.state.reserved ∧
      ((∀ a ∈ actions, a.Nonnegative) →
        0 ≤ s.state.availableBalance ∧ 0 ≤ s.state.reserved) := by
  have hsound := sound_of_run hexact hrun
  refine ⟨(hsound.accounts id s hs).balance, fun hactions => ?_⟩
  have hsolvent : b.Sound ∧ b.Solvent :=
    ((Machine.Along.of_mem hactions).and hexact).invariant (fun b => b.Sound ∧ b.Solvent)
      (fun _ _ _ h ha hstep => ⟨h.1.step ha.2 hstep, h.2.step h.1 ha.1 ha.2 hstep⟩)
      ⟨sound_init, solvent_init⟩ hrun
  refine ⟨hsolvent.2.accounts id s hs, AList.total_nonneg fun transactionId st hst => ?_⟩
  obtain ⟨-, hreg, -⟩ := (hsound.accounts id s hs).statements transactionId st hst
  unfold TransactionInfo.reservation
  split
  · exact hsolvent.2.transactions _ hreg
  · exact le_rfl

/-- Two accounts, and a transfer of 30 from one to the other. -/
def transferRun : List Action :=
  [.createAccount "A" "" "" 100, .createAccount "B" "" "" 0, .submitTransaction "t" "A" "B" 30] ++
    List.replicate 24 (.deliver 0)

/-- After some of the deliveries of `transferRun` the debit is prepared and not committed. -/
theorem no_overdraft_transferRun : ∃ b s, Machine.run step init (transferRun.take 12) = some b ∧
    b.accounts.lookup "A" = some s ∧ s.state.reserved = 30 ∧ 0 ≤ s.state.availableBalance := by
  have hactions : ∀ a ∈ transferRun.take 12, a.Nonnegative := by
    simp [transferRun, Action.Nonnegative]
  have hexact : Machine.Along step Exact init (transferRun.take 12) := by decide +kernel
  have hend : (Machine.run step init (transferRun.take 12)).map
      (fun b => (b.accounts.lookup "A").map fun s => s.state.reserved) = some (some 30) := by
    decide +kernel
  obtain ⟨b, hrun, hA⟩ := Option.map_eq_some_iff.1 hend
  obtain ⟨s, hs, hreserved⟩ := Option.map_eq_some_iff.1 hA
  exact ⟨b, s, hrun, hs, hreserved, ((no_overdraft hexact hrun hs).2 hactions).1⟩

end Bank

end IFramework.Sample
