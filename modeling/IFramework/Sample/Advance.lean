import IFramework.Sample.Balances
import IFramework.Sample.Transfer
import Mathlib.Data.List.Count
import Mathlib.Data.List.Perm.Basic

/-!
# The delivery of one message

A message of the saga belongs to one transfer (`Message.token`). Its delivery makes that transfer go
on as `Transfer.lean` describes it and leaves the others alone (`Advances`), if the transfer is in
order before (`advances_handleCommand`, `advances_event`).
-/

namespace IFramework.Sample

open EventSourcing (AggregateRoot Stored)
open Transactions

/-- The transfer that a message makes go on, and how. -/
def Message.token : Message → Option (Kind × TransactionInfo)
  | .command (.prepareAccountCredit _ info) => some (.prepareAccountCredit, info)
  | .command (.prepareAccountDebit _ info) => some (.prepareAccountDebit, info)
  | .command (.commitAccountCredit _ info) => some (.commitAccountCredit, info)
  | .command (.commitAccountDebit _ info) => some (.commitAccountDebit, info)
  | .command (.revertAccountDebitPreparation _ info) => some (.revertAccountDebitPreparation, info)
  | .command (.revertAccountCreditPreparation _ info) =>
    some (.revertAccountCreditPreparation, info)
  | .command (.prepareTransactionCredit _ info) => some (.prepareTransactionCredit, info)
  | .command (.prepareTransactionDebit _ info) => some (.prepareTransactionDebit, info)
  | .command (.commitTransactionCredit _ info) => some (.commitTransactionCredit, info)
  | .command (.commitTransactionDebit _ info) => some (.commitTransactionDebit, info)
  | .command (.failTransactionPreparation _ info _) => some (.failTransactionPreparation, info)
  | .accountEvent (.accountCreditPrepared _ info) => some (.accountCreditPrepared, info)
  | .accountEvent (.accountDebitPrepared _ info _) => some (.accountDebitPrepared, info)
  | .accountEvent (.accountDebitCommitted _ info _) => some (.accountDebitCommitted, info)
  | .accountEvent (.accountCreditCommitted _ info _ _) => some (.accountCreditCommitted, info)
  | .accountEvent (.accountDebitPrepareFailed _ info _) => some (.accountDebitPrepareFailed, info)
  | .accountEvent (.accountCreditPrepareFailed _ info _) => some (.accountCreditPrepareFailed, info)
  | .transactionEvent (.transactionSubmitted _ (some info)) => some (.transactionSubmitted, info)
  | .transactionEvent (.transactionPrepared _ (some info)) => some (.transactionPrepared, info)
  | _ => none

/-- How many messages of one kind a transfer has under way. -/
def tokensOf (info : TransactionInfo) (ms : List Message) (kind : Kind) : Nat :=
  (ms.filterMap Message.token).count (kind, info)

theorem tokensOf_append (info : TransactionInfo) (ms ms' : List Message) (kind : Kind) :
    tokensOf info (ms ++ ms') kind = tokensOf info ms kind + tokensOf info ms' kind := by
  simp [tokensOf, List.filterMap_append]

theorem tokensOf_of_map {info : TransactionInfo} {ms : List Message} {kinds : List Kind}
    (h : ms.filterMap Message.token = kinds.map (·, info)) (kind : Kind) :
    tokensOf info ms kind = kinds.count kind := by
  rw [tokensOf, h]
  exact List.count_map_of_injective _ (fun k : Kind => (k, info))
    (fun _ _ hk => congrArg Prod.fst hk) kind

theorem tokensOf_of_ne {info info' : TransactionInfo} {ms : List Message} {kinds : List Kind}
    (h : ms.filterMap Message.token = kinds.map (·, info)) (hne : info ≠ info') (kind : Kind) :
    tokensOf info' ms kind = 0 := by
  rw [tokensOf, h, List.count_eq_zero]
  simp [hne]

theorem tokensOf_of_nil {ms : List Message} (h : ms.filterMap Message.token = [])
    (info : TransactionInfo) (kind : Kind) : tokensOf info ms kind = 0 := by
  rw [tokensOf, h]
  rfl

theorem tokensOf_singleton {info : TransactionInfo} {m : Message} {kind : Kind}
    (h : m.token = some (kind, info)) (k : Kind) :
    tokensOf info [m] k = if k = kind then 1 else 0 := by
  have hm : [m].filterMap Message.token = [kind].map (·, info) := by simp [h]
  rw [tokensOf_of_map hm, List.count_singleton]
  by_cases hk : k = kind
  · simp [hk]
  · simp [hk, Ne.symm hk]

theorem tokensOf_singleton_of_ne {info : TransactionInfo} {m : Message}
    (h : ∀ kind, m.token ≠ some (kind, info)) (k : Kind) : tokensOf info [m] k = 0 := by
  rw [tokensOf, List.count_eq_zero]
  intro hmem
  obtain ⟨m', hm', htoken⟩ := List.mem_filterMap.1 hmem
  rw [List.mem_singleton.1 hm'] at htoken
  exact h k htoken

/-- The message that is delivered, and the others. -/
theorem tokensOf_eraseIdx {ms : List Message} {i : Nat} {m : Message} (h : ms[i]? = some m)
    (info : TransactionInfo) (kind : Kind) :
    tokensOf info ms kind = tokensOf info [m] kind + tokensOf info (ms.eraseIdx i) kind := by
  obtain ⟨hi, rfl⟩ := List.getElem?_eq_some_iff.1 h
  rw [← tokensOf_append]
  exact ((List.getElem_cons_eraseIdx_perm hi).filterMap _).symm.count_eq _

namespace Bank

variable {b : Bank}

/-- Whether an account holds the statement of one side of a transfer. -/
def held (b : Bank) (info : TransactionInfo) (type : TransactionType) : Bool :=
  (b.accounts.lookup (info.accountId type)).any fun s =>
    s.state.typeOf info.transactionId = some type

/-- How often a command has not found its account. -/
def missing (b : Bank) (command : Command) (accountId : String) : Nat :=
  b.failures.count (command, .thrown (.domainException .objectNotExists [accountId]))

/-- How far a transfer has come. -/
def progress (b : Bank) (info : TransactionInfo) : Progress where
  tokens := tokensOf info b.messages
  creditHeld := b.held info .credit
  debitHeld := b.held info .debit
  missingCredit :=
    b.missing (.prepareAccountCredit info.creditAccountId info) info.creditAccountId
  missingDebit := b.missing (.prepareAccountDebit info.debitAccountId info) info.debitAccountId

/-- The results that a saga has been finished with. -/
def resultsOf (b : Bank) (transactionId : String) : List TransactionResult :=
  (b.results.filter fun r => r.1 = transactionId).map Prod.snd

theorem resultsOf_congr {b b' : Bank} (h : b'.results = b.results) (id : String) :
    b'.resultsOf id = b.resultsOf id := by
  rw [resultsOf, h]
  rfl

theorem resultsOf_append {b b' : Bank} {id : String} {rs : List TransactionResult}
    (h : b'.results = b.results ++ rs.map fun r => (id, r)) :
    b'.resultsOf id = b.resultsOf id ++ rs := by
  simp [resultsOf, h, List.filter_map, Function.comp_def]

theorem resultsOf_append_of_ne {b b' : Bank} {id id' : String} {rs : List TransactionResult}
    (h : b'.results = b.results ++ rs.map fun r => (id, r)) (hid : id' ≠ id) :
    b'.resultsOf id' = b.resultsOf id' := by
  simp [resultsOf, h, List.filter_map, Function.comp_def, hid.symm]

/-- What the accounts hold. -/
def total (b : Bank) : Int := b.accounts.total fun _ s => s.state.currentBalance

/-! ## What a handler leaves as it is -/

section Frames

variable (ms : List Message) (c : Command) (f : Failure)

@[simp] theorem send_accounts : (b.send ms).accounts = b.accounts := rfl
@[simp] theorem send_transactions : (b.send ms).transactions = b.transactions := rfl
@[simp] theorem send_failures : (b.send ms).failures = b.failures := rfl
@[simp] theorem send_opened : (b.send ms).opened = b.opened := rfl
@[simp] theorem send_results : (b.send ms).results = b.results := rfl
@[simp] theorem send_messages : (b.send ms).messages = b.messages ++ ms := rfl

@[simp] theorem fail_accounts : (b.fail c f).accounts = b.accounts := by
  unfold fail
  split <;> rfl

@[simp] theorem fail_transactions : (b.fail c f).transactions = b.transactions := by
  unfold fail
  split <;> rfl

@[simp] theorem fail_failures : (b.fail c f).failures = b.failures ++ [(c, f)] := by
  unfold fail
  split <;> rfl

@[simp] theorem fail_opened : (b.fail c f).opened = b.opened := by
  unfold fail
  split <;> rfl

@[simp] theorem fail_results : (b.fail c f).results = b.results := by
  unfold fail
  split <;> rfl

/-- The event that a failure publishes. -/
def Failure.events : Failure → List Message
  | .thrown (.onException event) => [.accountEvent event]
  | _ => []

@[simp] theorem fail_messages : (b.fail c f).messages = b.messages ++ Failure.events f := by
  unfold fail Failure.events
  split
  · rfl
  · simp

end Frames

section Post

variable {id : String} {s : Stored BankAccount} {e : AccountEvent} {info : TransactionInfo}

/-- An event changes the statement of its own transaction. -/
theorem typeOf_handle_of_ne (a : BankAccount) {transactionId : String}
    (hne : ∀ i, e.transaction = some i → transactionId ≠ i.transactionId)
    (hcreated : ∀ id amount name cardId, e ≠ .accountCreated id amount name cardId) :
    (a.handle e).typeOf transactionId = a.typeOf transactionId := by
  cases e with
  | accountCreated id amount name cardId => exact absurd rfl (hcreated _ _ _ _)
  | accountDebitPrepareFailed => rfl
  | accountCreditPrepareFailed => rfl
  | _ => simp [BankAccount.handle, BankAccount.typeOf, hne _ rfl]

theorem held_post (type : TransactionType) :
    (b.post id s e).held info type =
      if info.accountId type = id then
        decide ((s.state.handle e).typeOf info.transactionId = some type)
      else b.held info type := by
  unfold held post
  by_cases hid : info.accountId type = id
  · rw [if_pos hid, hid, send_accounts, AList.lookup_insert]
    rfl
  · rw [if_neg hid, send_accounts, AList.lookup_insert_ne hid]

theorem held_of_lookup (hs : b.accounts.lookup id = some s) {type : TransactionType}
    (hid : info.accountId type = id) :
    b.held info type = decide (s.state.typeOf info.transactionId = some type) := by
  rw [held, hid, hs]
  rfl

theorem total_post (hs : b.accounts.lookup id = some s) :
    (b.post id s e).total =
      b.total + ((s.state.handle e).currentBalance - s.state.currentBalance) :=
  AList.total_insert_of_lookup _ hs

end Post

/-! ## The other transfers -/

section Others

variable {info info' : TransactionInfo} {ms : List Message}

/-- A message of no transfer but that of `info`. -/
def Concerns (info : TransactionInfo) (ms : List Message) : Prop :=
  ∃ kinds : List Kind, ms.filterMap Message.token = kinds.map (·, info)

theorem progress_send_of_ne (hms : Concerns info ms) (hne : info ≠ info') :
    (b.send ms).progress info' = b.progress info' := by
  obtain ⟨kinds, hkinds⟩ := hms
  unfold progress
  congr 1
  funext kind
  rw [send_messages, tokensOf_append, tokensOf_of_ne hkinds hne, Nat.add_zero]

theorem concerns_accountEvent {e : AccountEvent}
    (he : ∀ i, e.transaction = some i → i = info) : Concerns info [.accountEvent e] := by
  cases e with
  | accountCreated => exact ⟨[], rfl⟩
  | accountDebitPreparationReverted => exact ⟨[], rfl⟩
  | accountCreditPreparationReverted => exact ⟨[], rfl⟩
  | _ =>
    obtain rfl := he _ rfl
    exact ⟨[_], rfl⟩

theorem progress_post_of_ne {id : String} {s : Stored BankAccount} {e : AccountEvent}
    (hs : b.accounts.lookup id = some s) (he : e.transaction = some info)
    (hid : info'.transactionId ≠ info.transactionId) :
    (b.post id s e).progress info' = b.progress info' := by
  have hne : info ≠ info' := by
    rintro rfl
    exact hid rfl
  have htype : (s.state.handle e).typeOf info'.transactionId =
      s.state.typeOf info'.transactionId :=
    typeOf_handle_of_ne s.state (fun i hi => by rwa [Option.some.inj (hi.symm.trans he)])
      (by rintro _ _ _ _ rfl; cases he)
  have hheld : ∀ type, (b.post id s e).held info' type = b.held info' type := by
    intro type
    rw [held_post, htype]
    split
    · next haccount => rw [held_of_lookup hs haccount]
    · rfl
  have hconcerns : Concerns info [.accountEvent e] :=
    concerns_accountEvent fun i hi => Option.some.inj (hi.symm.trans he)
  have hsend := progress_send_of_ne (b := b) hconcerns hne
  unfold progress at hsend ⊢
  rw [hheld, hheld]
  injection hsend with htokens
  congr 1

/-- The command of another transfer fails. -/
theorem progress_fail_of_ne {c : Command} {f : Failure} (hf : Concerns info (Failure.events f))
    (hne : info ≠ info') (hcredit : ∀ id, c ≠ .prepareAccountCredit id info')
    (hdebit : ∀ id, c ≠ .prepareAccountDebit id info') :
    (b.fail c f).progress info' = b.progress info' := by
  obtain ⟨kinds, hkinds⟩ := hf
  unfold progress held missing
  simp only [fail_accounts, fail_failures, List.count_append]
  congr 1
  · funext kind
    rw [fail_messages, tokensOf_append, tokensOf_of_ne hkinds hne, Nat.add_zero]
  · rw [List.count_eq_zero_of_not_mem (l := [(c, f)]), Nat.add_zero]
    rintro hmem
    exact hcredit _ (congrArg Prod.fst (List.mem_singleton.1 hmem)).symm
  · rw [List.count_eq_zero_of_not_mem (l := [(c, f)]), Nat.add_zero]
    rintro hmem
    exact hdebit _ (congrArg Prod.fst (List.mem_singleton.1 hmem)).symm

end Others

/-! ## The two accounts of a transfer -/

theorem accountId_inj {info : TransactionInfo} {type type' : TransactionType}
    (h : info.accountId type = info.accountId type') : type = type' := by
  have hne := info.debit_ne_credit
  cases type <;> cases type' <;> first | rfl | exact absurd h hne | exact absurd h hne.symm

/-- An account without the statement of its own side has none of the transfer. -/
theorem lookup_eq_none {ts : Transactions} {info : TransactionInfo} {a : BankAccount}
    (type : TransactionType) (h : ts.SoundAccount (info.accountId type) a)
    (hinfo : ts.Registered info) (hnot : a.typeOf info.transactionId ≠ some type) :
    a.transactionStatements.lookup info.transactionId = none := by
  cases hs : a.transactionStatements.lookup info.transactionId with
  | none => rfl
  | some st =>
    have htype : a.typeOf info.transactionId = some st.type := by simp [BankAccount.typeOf, hs]
    have haccount := h.account_of_typeOf hinfo htype
    exact absurd (accountId_inj haccount ▸ htype) hnot

/-! ## The transfer that a message makes go on -/

end Bank

/-- One more message under way. -/
def Progress.add (p : Progress) (kind : Kind) : Progress :=
  { p with tokens := fun k => p.tokens k + if k = kind then 1 else 0 }

namespace Bank

/-- The two commits, which take what has been prepared. -/
def IsCommit : Command → Prop
  | .commitAccountCredit .. | .commitAccountDebit .. => True
  | _ => False

/-- From `b`, where a message of this kind has just been taken, to `b'`: its transfer goes on and
the others do not. -/
structure Advances (b b' : Bank) (kind : Kind) (info : TransactionInfo)
    (s : Stored TransactionState) : Prop where
  others : ∀ info', Registered b.transactions info' → info' ≠ info →
    b'.progress info' = b.progress info'
  stored : ∀ id, id ≠ info.transactionId →
    b'.transactions.lookup id = b.transactions.lookup id
  own : ∃ s' produced p₀, b'.transactions.lookup info.transactionId = some s' ∧
    Progress.Move ((b.progress info).add kind) s.state kind produced p₀ s'.state ∧
    Consumes p₀ (b'.progress info) kind produced ∧
    ((¬kind.Finishes ∧ b'.results = b.results) ∨ (kind.Finishes ∧
      b'.results = b.results ++ s'.state.replies.map fun r => (info.transactionId, r)))
  total : b'.total = b.total + kind.change * info.amount
  opened : b'.opened = b.opened
  failures : ∀ f ∈ b'.failures, f ∈ b.failures ∨ ¬IsCommit f.1 ∧ GenuineCommand b.transactions f.1

section Own

variable {b : Bank} {kind : Kind} {info : TransactionInfo} {s : Stored TransactionState}
  {produced : List Kind} {out : List Message}

theorem consumes_of {b' : Bank} {p₀ : Progress} (hmessages : b'.messages = b.messages ++ out)
    (hout : out.filterMap Message.token = produced.map (·, info))
    (htokens : p₀.tokens = ((b.progress info).add kind).tokens)
    (hcredit : b'.held info .credit = p₀.creditHeld)
    (hdebit : b'.held info .debit = p₀.debitHeld)
    (hmissingCredit : (b'.progress info).missingCredit = p₀.missingCredit)
    (hmissingDebit : (b'.progress info).missingDebit = p₀.missingDebit) :
    Consumes p₀ (b'.progress info) kind produced where
  tokens k := by
    simp only [htokens, Progress.add, progress, hmessages, tokensOf_append, tokensOf_of_map hout]
    omega
  creditHeld := hcredit
  debitHeld := hdebit
  missingCredit := hmissingCredit
  missingDebit := hmissingDebit

/-- Commands are sent, or events published. -/
theorem Advances.send (hs : b.transactions.lookup info.transactionId = some s)
    (hout : out.filterMap Message.token = produced.map (·, info)) (hchange : kind.change = 0)
    (hfinish : ¬kind.Finishes)
    (hmove : Progress.Move ((b.progress info).add kind) s.state kind produced
      ((b.progress info).add kind) s.state) : Advances b (b.send out) kind info s where
  others info' _ hne := progress_send_of_ne ⟨produced, hout⟩ hne.symm
  stored _ _ := rfl
  own := ⟨s, produced, _, hs, hmove, consumes_of rfl hout rfl rfl rfl rfl rfl,
    .inl ⟨hfinish, rfl⟩⟩
  total := by rw [hchange, Int.zero_mul, Int.add_zero]; rfl
  opened := rfl
  failures _ hf := .inl hf

/-- Nothing happens. -/
theorem Advances.refl {p₀ : Progress} (hs : b.transactions.lookup info.transactionId = some s)
    (hchange : kind.change = 0) (hfinish : ¬kind.Finishes)
    (hmove : Progress.Move ((b.progress info).add kind) s.state kind [] p₀ s.state)
    (htokens : p₀.tokens = ((b.progress info).add kind).tokens)
    (hcredit : b.held info .credit = p₀.creditHeld) (hdebit : b.held info .debit = p₀.debitHeld)
    (hmissingCredit : (b.progress info).missingCredit = p₀.missingCredit)
    (hmissingDebit : (b.progress info).missingDebit = p₀.missingDebit) :
    Advances b b kind info s where
  others _ _ _ := rfl
  stored _ _ := rfl
  own := ⟨s, [], p₀, hs, hmove,
    consumes_of (List.append_nil _).symm rfl htokens hcredit hdebit hmissingCredit hmissingDebit,
    .inl ⟨hfinish, rfl⟩⟩
  total := by rw [hchange, Int.zero_mul, Int.add_zero]
  opened := rfl
  failures _ hf := .inl hf

/-- An event of an account is committed. -/
theorem Advances.post {id : String} {a : Stored BankAccount} {e : AccountEvent} {p₀ : Progress}
    (hinfo : Registered b.transactions info)
    (hs : b.transactions.lookup info.transactionId = some s)
    (ha : b.accounts.lookup id = some a) (he : e.transaction = some info)
    (hout : [Message.accountEvent e].filterMap Message.token = produced.map (·, info))
    (hbalance : (a.state.handle e).currentBalance = a.state.currentBalance +
      kind.change * info.amount) (hfinish : ¬kind.Finishes)
    (hmove : Progress.Move ((b.progress info).add kind) s.state kind produced p₀ s.state)
    (htokens : p₀.tokens = ((b.progress info).add kind).tokens)
    (hcredit : (b.post id a e).held info .credit = p₀.creditHeld)
    (hdebit : (b.post id a e).held info .debit = p₀.debitHeld)
    (hmissingCredit : (b.progress info).missingCredit = p₀.missingCredit)
    (hmissingDebit : (b.progress info).missingDebit = p₀.missingDebit) :
    Advances b (b.post id a e) kind info s where
  others info' hinfo' hne := progress_post_of_ne ha he fun hid => hne (hinfo'.unique hinfo hid)
  stored _ _ := rfl
  own := ⟨s, produced, p₀, hs, hmove,
    consumes_of rfl hout htokens hcredit hdebit hmissingCredit hmissingDebit,
    .inl ⟨hfinish, rfl⟩⟩
  total := by
    rw [total_post ha, hbalance]
    omega
  opened := rfl
  failures _ hf := .inl hf

/-- A preparation finds no account, or fails on it. -/
theorem Advances.fail {c : Command} {f : Failure} {p₀ : Progress}
    (hc : GenuineCommand b.transactions c) (hcommit : ¬IsCommit c)
    (hs : b.transactions.lookup info.transactionId = some s)
    (hcreditOf : ∀ id info', c = .prepareAccountCredit id info' → info' = info)
    (hdebitOf : ∀ id info', c = .prepareAccountDebit id info' → info' = info)
    (hout : (Failure.events f).filterMap Message.token = produced.map (·, info))
    (hchange : kind.change = 0) (hfinish : ¬kind.Finishes)
    (hmove : Progress.Move ((b.progress info).add kind) s.state kind produced p₀ s.state)
    (htokens : p₀.tokens = ((b.progress info).add kind).tokens)
    (hcredit : b.held info .credit = p₀.creditHeld) (hdebit : b.held info .debit = p₀.debitHeld)
    (hmissingCredit : ((b.fail c f).progress info).missingCredit = p₀.missingCredit)
    (hmissingDebit : ((b.fail c f).progress info).missingDebit = p₀.missingDebit) :
    Advances b (b.fail c f) kind info s where
  others info' _ hne :=
    progress_fail_of_ne ⟨produced, hout⟩ hne.symm (fun id hid => hne (hcreditOf id info' hid))
      fun id hid => hne (hdebitOf id info' hid)
  stored _ _ := by rw [fail_transactions]
  own := by
    refine ⟨s, produced, p₀, by rwa [fail_transactions], hmove, ?_,
      .inl ⟨hfinish, fail_results c f⟩⟩
    refine consumes_of (fail_messages c f) hout htokens ?_ ?_ hmissingCredit hmissingDebit
    · simpa only [held, fail_accounts] using hcredit
    · simpa only [held, fail_accounts] using hdebit
  total := by
    rw [hchange, Int.zero_mul, Int.add_zero, Bank.total, fail_accounts]
    rfl
  opened := fail_opened c f
  failures f' hf' := by
    rw [fail_failures] at hf'
    rcases List.mem_append.1 hf' with hf' | hf'
    · exact .inl hf'
    · rw [List.mem_singleton.1 hf']
      exact .inr ⟨hcommit, hc⟩

/-- The events of a transaction are committed. -/
theorem Advances.handleTransaction {c : Command} {operation : Transaction → Transaction}
    {finish : Transaction → Option TransactionResult} {t' : TransactionState}
    {events : List TransactionEvent}
    (hs : b.transactions.lookup info.transactionId = some s)
    (hop : (operation (AggregateRoot.load s)).state = t' ∧
      (operation (AggregateRoot.load s)).eventQueue.map Event.payload = events)
    (hne : events ≠ [])
    (hout : (events.map Message.transactionEvent).filterMap Message.token =
      produced.map (·, info))
    (hchange : kind.change = 0)
    (hfinish : (¬kind.Finishes ∧ finish (operation (AggregateRoot.load s)) = none) ∨
      (kind.Finishes ∧ (finish (operation (AggregateRoot.load s))).toList = t'.replies))
    (hmove : Progress.Move ((b.progress info).add kind) s.state kind produced
      ((b.progress info).add kind) t') :
    Advances b (b.handleTransaction c info.transactionId operation finish) kind info s := by
  obtain ⟨rfl, rfl⟩ := hop
  have hqueue : (operation (AggregateRoot.load s)).eventQueue.isEmpty = false := by
    simpa using hne
  have hhandle := handleTransaction_of_registered hs c operation finish
  simp only [saveTransaction, hqueue, Bool.false_eq_true, if_false] at hhandle
  rw [List.map_map] at hout
  rw [hhandle]
  refine ⟨fun info' _ hne' => ?_, fun id hid => AList.lookup_insert_ne hid, ?_, ?_, rfl,
    fun _ hf => .inl hf⟩
  · exact progress_send_of_ne (b := b) ⟨produced, hout⟩ hne'.symm
  · refine ⟨_, produced, _, AList.lookup_insert _, hmove,
      consumes_of rfl hout rfl rfl rfl rfl rfl, ?_⟩
    rcases hfinish with ⟨hkind, hnone⟩ | ⟨hkind, hreplies⟩
    · exact .inl ⟨hkind, by simp [hnone]⟩
    · refine .inr ⟨hkind, ?_⟩
      simp only [AggregateRoot.store, ← hreplies, Option.toList_map]
  · rw [hchange, Int.zero_mul, Int.add_zero]
    rfl

section Load

variable (s : Stored TransactionState)

theorem prepareCredit_load :
    (Transaction.prepareCredit (AggregateRoot.load s)).state =
        { s.state with
          creditPrepared := true
          status := if s.state.debitPrepared then .prepared else s.state.status } ∧
      (Transaction.prepareCredit (AggregateRoot.load s)).eventQueue.map Event.payload =
        .transactionCreditPrepared s.state.id s.state.info ::
          if s.state.debitPrepared then [.transactionPrepared s.state.id s.state.info] else [] := by
  unfold Transaction.prepareCredit Transaction.tryPrepare
  cases hd : s.state.debitPrepared <;>
    simp [Transaction.onEvent, AggregateRoot.onEvent, AggregateRoot.load, hd,
      TransactionState.aggregateType, TransactionState.handle]

theorem prepareDebit_load :
    (Transaction.prepareDebit (AggregateRoot.load s)).state =
        { s.state with
          debitPrepared := true
          status := if s.state.creditPrepared then .prepared else s.state.status } ∧
      (Transaction.prepareDebit (AggregateRoot.load s)).eventQueue.map Event.payload =
        .transactionDebitPrepared s.state.id s.state.info ::
          if s.state.creditPrepared then [.transactionPrepared s.state.id s.state.info]
          else [] := by
  unfold Transaction.prepareDebit Transaction.tryPrepare
  cases hc : s.state.creditPrepared <;>
    simp [Transaction.onEvent, AggregateRoot.onEvent, AggregateRoot.load, hc,
      TransactionState.aggregateType, TransactionState.handle]

theorem commitCredit_load :
    (Transaction.commitCredit (AggregateRoot.load s)).state =
        { s.state with
          creditCommitted := true
          status := if s.state.debitCommitted then .completed else s.state.status } ∧
      (Transaction.commitCredit (AggregateRoot.load s)).eventQueue.map Event.payload =
        .transactionCreditCommitted s.state.id s.state.info ::
          if s.state.debitCommitted then [.transactionCompleted s.state.id s.state.info]
          else [] := by
  unfold Transaction.commitCredit Transaction.tryComplete
  cases hd : s.state.debitCommitted <;>
    simp [Transaction.onEvent, AggregateRoot.onEvent, AggregateRoot.load, hd,
      TransactionState.aggregateType, TransactionState.handle]

theorem commitDebit_load :
    (Transaction.commitDebit (AggregateRoot.load s)).state =
        { s.state with
          debitCommitted := true
          status := if s.state.creditCommitted then .completed else s.state.status } ∧
      (Transaction.commitDebit (AggregateRoot.load s)).eventQueue.map Event.payload =
        .transactionDebitCommitted s.state.id s.state.info ::
          if s.state.creditCommitted then [.transactionCompleted s.state.id s.state.info]
          else [] := by
  unfold Transaction.commitDebit Transaction.tryComplete
  cases hc : s.state.creditCommitted <;>
    simp [Transaction.onEvent, AggregateRoot.onEvent, AggregateRoot.load, hc,
      TransactionState.aggregateType, TransactionState.handle]

end Load

/-- The handlers of the commits finish the saga of a transaction that is completed. -/
theorem finishCompleted_toList {t : Transaction} {t' : TransactionState} (ht : t.state = t')
    (hfailed : t'.status ≠ .prepareFailed) : (finishCompleted t).toList = t'.replies := by
  subst ht
  unfold finishCompleted TransactionState.replies
  split <;> split <;> simp_all

/-- A command of a transfer that is in order makes it go on. -/
theorem advances_handleCommand {c : Command} (h : b.Sound) (hc : GenuineCommand b.transactions c)
    (hexact : ∀ n ∈ b.sums c, Decimal.IsDecimal n)
    (htoken : Message.token (.command c) = some (kind, info))
    (hinfo : Registered b.transactions info)
    (hs : b.transactions.lookup info.transactionId = some s)
    (hok : Progress.Ok ((b.progress info).add kind) s.state) :
    Advances b (b.handleCommand c) kind info s := by
  have hadd : 0 < ((b.progress info).add kind).tokens kind := by simp [Progress.add]
  have hsinfo : s.state.info = some info := by
    obtain ⟨s', hs', hi⟩ := hinfo
    cases hs.symm.trans hs'
    exact hi
  have hne := info.debit_ne_credit
  cases c with
  | createAccount => cases htoken
  | submitTransaction => cases htoken
  | prepareAccountCredit id =>
    cases htoken
    obtain rfl : id = info.creditAccountId := hc.1
    have hheld : b.held info .credit = false := hok.creditHeld_of_prepare hadd
    cases ha : b.accounts.lookup info.creditAccountId with
    | none =>
      simp only [Bank.handleCommand, handleAccount_of_none _ ha]
      refine Advances.fail hc not_false hs ?_ (by rintro _ _ ⟨⟩) rfl rfl id
        .prepareAccountCredit_missing rfl rfl rfl ?_ ?_
      · rintro _ _ ⟨⟩
        rfl
      · simp [progress, missing, Progress.add]
      · simp [progress, missing, Progress.add]
    | some a =>
      rw [held_of_lookup ha rfl] at hheld
      have hnone : a.state.transactionStatements.lookup info.transactionId = none :=
        lookup_eq_none .credit (h.accounts _ _ ha) hinfo (of_decide_eq_false hheld)
      rw [handle_prepareAccountCredit h ha rfl, if_neg (by simp [hnone])]
      refine Advances.post hinfo hs ha rfl rfl ?_ id .prepareAccountCredit rfl ?_ ?_ rfl rfl
      · simp [BankAccount.handle, Kind.change]
      · simp [held_post, BankAccount.handle, BankAccount.typeOf, TransactionInfo.accountId]
      · simp [held_post, hne, TransactionInfo.accountId, Progress.add, progress]
  | prepareAccountDebit id =>
    cases htoken
    obtain rfl : id = info.debitAccountId := hc.1
    have hheld : b.held info .debit = false := hok.debitHeld_of_prepare hadd
    cases ha : b.accounts.lookup info.debitAccountId with
    | none =>
      simp only [Bank.handleCommand, handleAccount_of_none _ ha]
      refine Advances.fail hc not_false hs (by rintro _ _ ⟨⟩) ?_ rfl rfl id
        .prepareAccountDebit_missing rfl rfl rfl ?_ ?_
      · rintro _ _ ⟨⟩
        rfl
      · simp [progress, missing, Progress.add]
      · simp [progress, missing, Progress.add]
    | some a =>
      rw [held_of_lookup ha rfl] at hheld
      have hnone : a.state.transactionStatements.lookup info.transactionId = none :=
        lookup_eq_none .debit (h.accounts _ _ ha) hinfo (of_decide_eq_false hheld)
      rw [handle_prepareAccountDebit h ha rfl hexact, if_neg (by simp [hnone])]
      split
      · refine Advances.fail hc not_false hs (by rintro _ _ ⟨⟩) ?_ rfl rfl id
          .prepareAccountDebit_failed rfl rfl rfl ?_ ?_
        · rintro _ _ ⟨⟩
          rfl
        · simp [progress, missing, Progress.add]
        · simp [progress, missing, Progress.add]
      · refine Advances.post hinfo hs ha rfl rfl ?_ id .prepareAccountDebit rfl ?_ ?_ rfl rfl
        · simp [BankAccount.handle, Kind.change]
        · simp [held_post, hne.symm, TransactionInfo.accountId, Progress.add, progress]
        · simp [held_post, BankAccount.handle, BankAccount.typeOf, TransactionInfo.accountId]
  | commitAccountCredit id =>
    cases htoken
    obtain rfl : id = info.creditAccountId := hc.1
    have hheld : b.held info .credit = true := hok.creditHeld_of_commit hadd
    cases ha : b.accounts.lookup info.creditAccountId with
    | none => simp [held, TransactionInfo.accountId, ha] at hheld
    | some a =>
      rw [held_of_lookup ha rfl] at hheld
      have htype : a.state.typeOf info.transactionId = some .credit := of_decide_eq_true hheld
      rw [handle_commitAccountCredit h ha hexact, if_pos htype]
      refine Advances.post hinfo hs ha rfl rfl ?_ id .commitAccountCredit rfl ?_ ?_ rfl rfl
      · simp [BankAccount.handle, Kind.change]
      · simp [held_post, BankAccount.handle, BankAccount.typeOf, TransactionInfo.accountId]
      · simp [held_post, hne, TransactionInfo.accountId, Progress.add, progress]
  | commitAccountDebit id =>
    cases htoken
    obtain rfl : id = info.debitAccountId := hc.1
    have hheld : b.held info .debit = true := hok.debitHeld_of_commit hadd
    cases ha : b.accounts.lookup info.debitAccountId with
    | none => simp [held, TransactionInfo.accountId, ha] at hheld
    | some a =>
      rw [held_of_lookup ha rfl] at hheld
      have htype : a.state.typeOf info.transactionId = some .debit := of_decide_eq_true hheld
      rw [handle_commitAccountDebit h ha hexact, if_pos htype]
      refine Advances.post hinfo hs ha rfl rfl ?_ id .commitAccountDebit rfl ?_ ?_ rfl rfl
      · simp [BankAccount.handle, Kind.change]
        omega
      · simp [held_post, hne.symm, TransactionInfo.accountId, Progress.add, progress]
      · simp [held_post, BankAccount.handle, BankAccount.typeOf, TransactionInfo.accountId]
  | revertAccountDebitPreparation id =>
    cases htoken
    exact absurd hok.revertDebit hadd.ne'
  | revertAccountCreditPreparation id =>
    cases htoken
    obtain rfl : id = info.creditAccountId := hc.1
    cases ha : b.accounts.lookup info.creditAccountId with
    | none =>
      simp only [Bank.handleCommand, handleAccount_of_none _ ha]
      refine Advances.fail hc not_false hs (by rintro _ _ ⟨⟩) (by rintro _ _ ⟨⟩) rfl rfl id
        .revertAccountCreditPreparation rfl ?_ rfl ?_ ?_
      · simp [held, TransactionInfo.accountId, ha]
      · simp [progress, missing, Progress.add]
      · simp [progress, missing, Progress.add]
    | some a =>
      rw [handle_revertAccountCreditPreparation h ha]
      split
      · refine Advances.post hinfo hs ha rfl rfl ?_ id .revertAccountCreditPreparation rfl ?_ ?_ rfl
          rfl
        · simp [BankAccount.handle, Kind.change]
        · simp [held_post, BankAccount.handle, BankAccount.typeOf, TransactionInfo.accountId]
        · simp [held_post, hne, TransactionInfo.accountId, Progress.add, progress]
      · next htype =>
        refine Advances.refl hs rfl id .revertAccountCreditPreparation rfl ?_ rfl rfl rfl
        rw [held_of_lookup ha rfl]
        exact decide_eq_false htype
  | prepareTransactionCredit id =>
    cases htoken
    obtain rfl : id = info.transactionId := hc.1
    simp only [Bank.handleCommand]
    refine Advances.handleTransaction hs (prepareCredit_load s) (List.cons_ne_nil _ _) ?_ rfl
      (.inl ⟨id, rfl⟩) .prepareTransactionCredit
    rw [hsinfo]
    cases s.state.debitPrepared <;> rfl
  | prepareTransactionDebit id =>
    cases htoken
    obtain rfl : id = info.transactionId := hc.1
    simp only [Bank.handleCommand]
    refine Advances.handleTransaction hs (prepareDebit_load s) (List.cons_ne_nil _ _) ?_ rfl
      (.inl ⟨id, rfl⟩) .prepareTransactionDebit
    rw [hsinfo]
    cases s.state.creditPrepared <;> rfl
  | commitTransactionCredit id =>
    cases htoken
    obtain rfl : id = info.transactionId := hc.1
    simp only [Bank.handleCommand]
    refine Advances.handleTransaction hs (commitCredit_load s) (List.cons_ne_nil _ _) ?_ rfl
      (.inr ⟨trivial, finishCompleted_toList (commitCredit_load s).1 ?_⟩) .commitTransactionCredit
    · cases s.state.debitCommitted <;> rfl
    · have hfailed := hok.not_failed (by omega)
      cases hd : s.state.debitCommitted <;> simp [hfailed]
  | commitTransactionDebit id =>
    cases htoken
    obtain rfl : id = info.transactionId := hc.1
    simp only [Bank.handleCommand]
    refine Advances.handleTransaction hs (commitDebit_load s) (List.cons_ne_nil _ _) ?_ rfl
      (.inr ⟨trivial, finishCompleted_toList (commitDebit_load s).1 ?_⟩) .commitTransactionDebit
    · cases s.state.creditCommitted <;> rfl
    · have hfailed := hok.not_failed (by omega)
      cases hc : s.state.creditCommitted <;> simp [hfailed]
  | failTransactionPreparation id _ reason =>
    cases htoken
    obtain rfl : id = info.transactionId := hc.1
    simp only [Bank.handleCommand]
    exact Advances.handleTransaction hs ⟨rfl, rfl⟩ (List.cons_ne_nil _ _) rfl rfl
      (.inr ⟨trivial, rfl⟩) (.failTransactionPreparation reason)

/-- An event of a transfer makes the process manager send what comes next. -/
theorem advances_event {m : Message} (hevent : ∀ c, m ≠ .command c)
    (htoken : m.token = some (kind, info))
    (hs : b.transactions.lookup info.transactionId = some s)
    (hok : Progress.Ok ((b.progress info).add kind) s.state) :
    Advances b (b.send ((processManager m).map .command)) kind info s := by
  have hadd : 0 < ((b.progress info).add kind).tokens kind := by simp [Progress.add]
  cases m with
  | command c => exact absurd rfl (hevent c)
  | accountEvent e =>
    cases e with
    | accountCreated => cases htoken
    | accountDebitPreparationReverted => cases htoken
    | accountCreditPreparationReverted => cases htoken
    | accountCreditPrepared =>
      cases htoken
      exact Advances.send hs rfl rfl id .accountCreditPrepared
    | accountDebitPrepared =>
      cases htoken
      exact Advances.send hs rfl rfl id .accountDebitPrepared
    | accountDebitCommitted =>
      cases htoken
      exact Advances.send hs rfl rfl id .accountDebitCommitted
    | accountCreditCommitted =>
      cases htoken
      exact Advances.send hs rfl rfl id .accountCreditCommitted
    | accountDebitPrepareFailed =>
      cases htoken
      exact Advances.send hs rfl rfl id .accountDebitPrepareFailed
    | accountCreditPrepareFailed =>
      cases htoken
      exact absurd hok.creditFailed hadd.ne'
  | transactionEvent e =>
    cases e with
    | transactionSubmitted _ transaction =>
      cases transaction <;> cases htoken
      exact Advances.send hs rfl rfl id .transactionSubmitted
    | transactionPrepared _ transaction =>
      cases transaction <;> cases htoken
      exact Advances.send hs rfl rfl id .transactionPrepared
    | _ => cases htoken

end Own

end Bank

end IFramework.Sample
