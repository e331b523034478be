import IFramework.Sample.TransactionProcessManager

/-!
# One transfer

What one transfer has under way, seen apart from all others: how many messages of each kind, and
whether its two accounts hold a statement for it. A delivery takes one message and puts others under
way (`Move`, `Consumes`). When no message is delivered twice, each side of the transfer has one message
under way, or it has come to its end (`Ok`); every move keeps this (`Move.goes`).
-/

namespace IFramework.Sample

/-- The messages of a transfer that make it go on. -/
inductive Kind where
  | transactionSubmitted
  | prepareAccountCredit
  | prepareAccountDebit
  | accountCreditPrepared
  | accountDebitPrepared
  | accountDebitPrepareFailed
  | accountCreditPrepareFailed
  | prepareTransactionCredit
  | prepareTransactionDebit
  | failTransactionPreparation
  | revertAccountCreditPreparation
  | revertAccountDebitPreparation
  | transactionPrepared
  | commitAccountCredit
  | commitAccountDebit
  | accountCreditCommitted
  | accountDebitCommitted
  | commitTransactionCredit
  | commitTransactionDebit
  deriving DecidableEq, Repr

/-- How far a transfer has come. `missingCredit` and `missingDebit` count the preparations that
found no account. -/
structure Progress where
  tokens : Kind → Nat
  creditHeld : Bool
  debitHeld : Bool
  missingCredit : Nat
  missingDebit : Nat

/-- A delivery that takes one message of the transfer and puts others under way. -/
structure Consumes (p p' : Progress) (kind : Kind) (produced : List Kind) : Prop where
  tokens : ∀ k, p'.tokens k + (if k = kind then 1 else 0) = p.tokens k + produced.count k
  creditHeld : p'.creditHeld = p.creditHeld
  debitHeld : p'.debitHeld = p.debitHeld
  missingCredit : p'.missingCredit = p.missingCredit
  missingDebit : p'.missingDebit = p.missingDebit

/-- Whether both preparations have been reported, as a number. -/
def TransactionState.bothPrepared (t : TransactionState) : Nat :=
  if t.creditPrepared && t.debitPrepared then 1 else 0

namespace Progress

/-- The credit has been posted to its account. -/
def creditPosted (p : Progress) (t : TransactionState) : Nat :=
  p.tokens .accountCreditCommitted + p.tokens .commitTransactionCredit +
    (if t.creditCommitted then 1 else 0)

/-- The debit has been posted to its account. -/
def debitPosted (p : Progress) (t : TransactionState) : Nat :=
  p.tokens .accountDebitCommitted + p.tokens .commitTransactionDebit +
    (if t.debitCommitted then 1 else 0)

/-- The account has prepared the credit. -/
def creditReported (p : Progress) (t : TransactionState) : Nat :=
  p.tokens .accountCreditPrepared + p.tokens .prepareTransactionCredit +
    (if t.creditPrepared then 1 else 0)

/-- The account has prepared the debit. -/
def debitReported (p : Progress) (t : TransactionState) : Nat :=
  p.tokens .accountDebitPrepared + p.tokens .prepareTransactionDebit +
    (if t.debitPrepared then 1 else 0)

/-- The transaction has failed, or is told so. -/
def failed (p : Progress) (t : TransactionState) : Nat :=
  p.tokens .failTransactionPreparation + (if t.status = .prepareFailed then 1 else 0)

/-- How many times the amount has been posted to accounts on balance. -/
def posted (p : Progress) (t : TransactionState) : Int := p.creditPosted t - p.debitPosted t

/-- Each side of the transfer is in one place. -/
structure Ok (p : Progress) (t : TransactionState) : Prop where
  credit : p.tokens .transactionSubmitted + p.tokens .prepareAccountCredit + p.creditReported t +
    p.missingCredit = 1
  debit : p.tokens .transactionSubmitted + p.tokens .prepareAccountDebit + p.debitReported t +
    p.tokens .accountDebitPrepareFailed + p.failed t + p.missingDebit = 1
  creditCommit : p.tokens .transactionPrepared + p.tokens .commitAccountCredit +
    p.creditPosted t = t.bothPrepared
  debitCommit : p.tokens .transactionPrepared + p.tokens .commitAccountDebit +
    p.debitPosted t = t.bothPrepared
  revertCredit : p.tokens .revertAccountCreditPreparation ≤ p.failed t
  creditFailed : p.tokens .accountCreditPrepareFailed = 0
  revertDebit : p.tokens .revertAccountDebitPreparation = 0
  creditFresh : 0 < p.tokens .transactionSubmitted + p.tokens .prepareAccountCredit →
    p.creditHeld = false
  creditHeld : 0 < p.creditReported t → p.creditPosted t = 0 → p.failed t = 0 →
    p.creditHeld = true
  debitHeld : p.debitHeld = true ↔ 0 < p.debitReported t ∧ p.debitPosted t = 0
  completed : t.status = .completed ↔ t.creditCommitted = true ∧ t.debitCommitted = true

end Progress

/-- The result of a saga that is over. -/
def TransactionState.replies (t : TransactionState) : List TransactionResult :=
  match t.status with
  | .completed => [⟨true, none⟩]
  | .prepareFailed => [⟨false, t.remark⟩]
  | _ => []

/-- The messages whose handlers may finish the saga. -/
def Kind.Finishes : Kind → Prop
  | .commitTransactionCredit | .commitTransactionDebit | .failTransactionPreparation => True
  | _ => False

/-- How many times the delivery of a message posts the amount to an account. -/
def Kind.change : Kind → Int
  | .commitAccountCredit => 1
  | .commitAccountDebit => -1
  | _ => 0

namespace Progress

/-- What a delivery does: the message it takes, those it puts under way, and what else it changes of
the progress and of the transaction. -/
inductive Move (p : Progress) (t : TransactionState) :
    Kind → List Kind → Progress → TransactionState → Prop where
  | transactionSubmitted :
    Move p t .transactionSubmitted [.prepareAccountCredit, .prepareAccountDebit] p t
  | prepareAccountCredit_missing :
    Move p t .prepareAccountCredit [] { p with missingCredit := p.missingCredit + 1 } t
  | prepareAccountCredit :
    Move p t .prepareAccountCredit [.accountCreditPrepared] { p with creditHeld := true } t
  | prepareAccountDebit_missing :
    Move p t .prepareAccountDebit [] { p with missingDebit := p.missingDebit + 1 } t
  | prepareAccountDebit_failed :
    Move p t .prepareAccountDebit [.accountDebitPrepareFailed] p t
  | prepareAccountDebit :
    Move p t .prepareAccountDebit [.accountDebitPrepared] { p with debitHeld := true } t
  | accountCreditPrepared : Move p t .accountCreditPrepared [.prepareTransactionCredit] p t
  | accountDebitPrepared : Move p t .accountDebitPrepared [.prepareTransactionDebit] p t
  | accountDebitPrepareFailed :
    Move p t .accountDebitPrepareFailed
      [.failTransactionPreparation, .revertAccountCreditPreparation] p t
  | prepareTransactionCredit :
    Move p t .prepareTransactionCredit (if t.debitPrepared then [.transactionPrepared] else []) p
      { t with
        creditPrepared := true, status := if t.debitPrepared then .prepared else t.status }
  | prepareTransactionDebit :
    Move p t .prepareTransactionDebit (if t.creditPrepared then [.transactionPrepared] else []) p
      { t with
        debitPrepared := true, status := if t.creditPrepared then .prepared else t.status }
  | failTransactionPreparation (reason : String) :
    Move p t .failTransactionPreparation [] p
      { t with remark := some reason, status := .prepareFailed }
  | revertAccountCreditPreparation :
    Move p t .revertAccountCreditPreparation [] { p with creditHeld := false } t
  | transactionPrepared :
    Move p t .transactionPrepared [.commitAccountCredit, .commitAccountDebit] p t
  | commitAccountCredit :
    Move p t .commitAccountCredit [.accountCreditCommitted] { p with creditHeld := false } t
  | commitAccountDebit :
    Move p t .commitAccountDebit [.accountDebitCommitted] { p with debitHeld := false } t
  | accountCreditCommitted : Move p t .accountCreditCommitted [.commitTransactionCredit] p t
  | accountDebitCommitted : Move p t .accountDebitCommitted [.commitTransactionDebit] p t
  | commitTransactionCredit :
    Move p t .commitTransactionCredit [] p
      { t with
        creditCommitted := true
        status := if t.debitCommitted then .completed else t.status }
  | commitTransactionDebit :
    Move p t .commitTransactionDebit [] p
      { t with
        debitCommitted := true
        status := if t.creditCommitted then .completed else t.status }

theorem Move.info_eq {p p₀ : Progress} {t t' : TransactionState} {kind : Kind}
    {produced : List Kind} (h : Move p t kind produced p₀ t') : t'.info = t.info := by
  cases h <;> rfl

theorem forall_kind {P : Kind → Prop} : (∀ k, P k) ↔
    P .transactionSubmitted ∧ P .prepareAccountCredit ∧ P .prepareAccountDebit ∧
      P .accountCreditPrepared ∧ P .accountDebitPrepared ∧ P .accountDebitPrepareFailed ∧
      P .accountCreditPrepareFailed ∧ P .prepareTransactionCredit ∧
      P .prepareTransactionDebit ∧ P .failTransactionPreparation ∧
      P .revertAccountCreditPreparation ∧ P .revertAccountDebitPreparation ∧
      P .transactionPrepared ∧ P .commitAccountCredit ∧ P .commitAccountDebit ∧
      P .accountCreditCommitted ∧ P .accountDebitCommitted ∧ P .commitTransactionCredit ∧
      P .commitTransactionDebit := by
  constructor
  · intro h
    simp only [h, and_self]
  · intro h k
    cases k <;> simp only [h]

namespace Ok

/-- A transfer that has just been submitted. -/
theorem of_submitted {p : Progress} {t : TransactionState}
    (htokens : ∀ k, p.tokens k = if k = .transactionSubmitted then 1 else 0)
    (hcredit : p.creditHeld = false) (hdebit : p.debitHeld = false)
    (hmissingCredit : p.missingCredit = 0) (hmissingDebit : p.missingDebit = 0)
    (ht : t.creditPrepared = false ∧ t.debitPrepared = false ∧ t.creditCommitted = false ∧
      t.debitCommitted = false ∧ t.status = .initialized) : Ok p t ∧ p.posted t = 0 := by
  obtain ⟨hcp, hdp, hcc, hdc, hstatus⟩ := ht
  refine ⟨?_, ?_⟩
  · constructor <;>
      simp [htokens, hcredit, hdebit, hmissingCredit, hmissingDebit, hcp, hdp, hcc, hdc, hstatus,
        creditPosted, debitPosted, creditReported, debitReported, failed,
        TransactionState.bothPrepared]
  · simp [posted, creditPosted, debitPosted, htokens, hcc, hdc]

attribute [local grind =] creditPosted debitPosted creditReported debitReported failed posted
  TransactionState.bothPrepared

variable {p p' : Progress} {t : TransactionState}

theorem creditHeld_of_prepare (h : Ok p t) (hp : 0 < p.tokens .prepareAccountCredit) :
    p.creditHeld = false :=
  h.creditFresh (by omega)

theorem debitHeld_of_prepare (h : Ok p t) (hp : 0 < p.tokens .prepareAccountDebit) :
    p.debitHeld = false := by
  have hdebit := h.debit
  rw [← Bool.not_eq_true, h.debitHeld]
  omega

/-- The commit of the credit finds the statement of its preparation. -/
theorem creditHeld_of_commit (h : Ok p t) (hp : 0 < p.tokens .commitAccountCredit) :
    p.creditHeld = true := by
  have hcommit := h.creditCommit
  have hdebit := h.debit
  apply h.creditHeld <;> grind

/-- The commit of the debit finds the statement of its preparation. -/
theorem debitHeld_of_commit (h : Ok p t) (hp : 0 < p.tokens .commitAccountDebit) :
    p.debitHeld = true := by
  have hcommit := h.debitCommit
  apply h.debitHeld.2
  grind

end Ok

attribute [local grind =] creditPosted debitPosted creditReported debitReported failed posted
  TransactionState.bothPrepared Kind.change

/-- A transfer goes on as it should, whichever of its messages is delivered next. -/
theorem Move.goes {p p₀ p' : Progress} {t t' : TransactionState} {kind : Kind}
    {produced : List Kind} (hm : Move p t kind produced p₀ t')
    (hp : Consumes p₀ p' kind produced) (h : Ok p t) :
    Ok p' t' ∧ p'.posted t' = p.posted t + kind.change := by
  obtain ⟨htokens, hc, hd, hmc, hmd⟩ := hp
  obtain ⟨hcredit, hdebit, hcc, hdc, hrc, hcf, hrd, hfresh, hch, hdh, hcompleted⟩ := h
  cases hm
  case prepareTransactionCredit =>
    cases hother : t.debitPrepared <;> simp [forall_kind, List.count_cons, hother] at htokens
    all_goals
      refine ⟨?_, by grind⟩
      constructor <;> grind
  case prepareTransactionDebit =>
    cases hother : t.creditPrepared <;> simp [forall_kind, List.count_cons, hother] at htokens
    all_goals
      refine ⟨?_, by grind⟩
      constructor <;> grind
  all_goals
    simp [forall_kind, List.count_cons] at htokens
    refine ⟨?_, by grind⟩
    constructor <;> grind

/-- A transfer whose commits are under way has not failed. -/
theorem Ok.not_failed {p : Progress} {t : TransactionState} (h : Ok p t)
    (hpos : 0 < p.tokens .commitTransactionCredit + p.tokens .commitTransactionDebit) :
    t.status ≠ .prepareFailed := by
  have hdebit := h.debit
  have hcc := h.creditCommit
  have hdc := h.debitCommit
  grind

/-- A saga that is over is not finished again. -/
theorem Move.replies {p p₀ : Progress} {t t' : TransactionState} {kind : Kind}
    {produced : List Kind} (hm : Move p t kind produced p₀ t') (h : Ok p t)
    (hpos : 0 < p.tokens kind) :
    (kind.Finishes → t.replies = []) ∧ (¬kind.Finishes → t'.replies = t.replies) := by
  obtain ⟨hcredit, hdebit, hcc, hdc, -, -, -, -, -, -, hcompleted⟩ := h
  -- Neither completed nor failed.
  have hopen : t.status ≠ .completed → t.status ≠ .prepareFailed → t.replies = [] := by
    intro hc hf
    unfold TransactionState.replies
    split <;> simp_all
  cases hm
  case prepareTransactionCredit =>
    refine ⟨nofun, fun _ => ?_⟩
    cases hd : t.debitPrepared with
    | false => simp [TransactionState.replies]
    | true =>
      rw [hopen (by grind) (by grind)]
      simp [TransactionState.replies]
  case prepareTransactionDebit =>
    refine ⟨nofun, fun _ => ?_⟩
    cases hc : t.creditPrepared with
    | false => simp [TransactionState.replies]
    | true =>
      rw [hopen (by grind) (by grind)]
      simp [TransactionState.replies]
  case failTransactionPreparation | commitTransactionCredit | commitTransactionDebit =>
    exact ⟨fun _ => hopen (by grind) (by grind), fun h => absurd trivial h⟩
  all_goals exact ⟨nofun, fun _ => rfl⟩

end Progress

end IFramework.Sample
