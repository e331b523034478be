import IFramework.Sample.Advance

/-!
# Conservation of money

In a run in which no message is delivered twice and every sum is exact, every transfer is in order
in every state (`Orderly`). Then no money is created or lost: the accounts hold what they were
opened with, up to transfers that have been posted on one side so far (`conservation`), and when all
messages have arrived, every transfer is over and nothing is reserved any more (`books_close`). When
a message is delivered a second time this is not so; the handlers do not look at the status of the
transaction, and an account forgets a statement once it is committed.
-/

namespace IFramework.Sample

open EventSourcing (AggregateRoot Stored)
open Transactions

namespace Bank

/-! ## Every transfer is in order -/

/-- What a transfer has posted to the accounts on balance. -/
def postedAmount (b : Bank) (s : Stored TransactionState) : Int :=
  match s.state.info with
  | some info => (b.progress info).posted s.state * info.amount
  | none => 0

/-- The result that the saga of a transaction is finished with, if it is over. -/
def repliesOf (b : Bank) (transactionId : String) : List TransactionResult :=
  (b.transactions.lookup transactionId).elim [] fun s => s.state.replies

/-- Every transfer is in order, its saga has been finished once if it is over, and what the accounts
hold is what they were opened with and what the transfers have posted. -/
structure Orderly (b : Bank) : Prop where
  sound : b.Sound
  failures : ∀ f ∈ b.failures, GenuineCommand b.transactions f.1 ∧ ¬IsCommit f.1
  progress : ∀ info s, b.transactions.lookup info.transactionId = some s →
    s.state.info = some info → Progress.Ok (b.progress info) s.state
  balance : b.total = b.opened + b.transactions.total fun _ s => b.postedAmount s
  results : ∀ transactionId, b.resultsOf transactionId = b.repliesOf transactionId

/-- A message of a transfer belongs to a stored transaction. -/
theorem registered_of_token {ts : Transactions} {m : Message} {kind : Kind}
    {info : TransactionInfo} (hm : ts.Genuine m) (htoken : m.token = some (kind, info)) :
    ts.Registered info := by
  cases m with
  | command c => cases c <;> cases htoken <;> exact hm.2
  | accountEvent e => cases e <;> cases htoken <;> exact hm _ rfl
  | transactionEvent e =>
    obtain ⟨info', hinfo, hreg⟩ := hm
    cases e <;> cases hinfo <;> cases htoken <;> exact hreg

section Orderly

variable {b b' : Bank}

/-- A step that no transfer takes part in. -/
theorem Orderly.congr (h : b.Orderly) (hsound : b'.Sound)
    (hprogress : ∀ info, b'.progress info = b.progress info)
    (htransactions : b'.transactions = b.transactions) (hresults : b'.results = b.results)
    (htotal : b'.total - b'.opened = b.total - b.opened)
    (hfailures : ∀ f ∈ b'.failures,
      f ∈ b.failures ∨ GenuineCommand b.transactions f.1 ∧ ¬IsCommit f.1) : b'.Orderly where
  sound := hsound
  failures f hf := by
    rw [htransactions]
    exact (hfailures f hf).elim (h.failures f) id
  progress info s hs hinfo := by
    rw [hprogress]
    exact h.progress info s (htransactions ▸ hs) hinfo
  balance := by
    have hposted : b'.postedAmount = b.postedAmount := by
      funext s
      unfold postedAmount
      simp only [hprogress]
    have hbalance := h.balance
    rw [htransactions, hposted]
    omega
  results id := by
    unfold resultsOf repliesOf
    rw [hresults, htransactions]
    exact h.results id

/-- The bank without the message that is delivered. -/
def take (b : Bank) (index : Nat) : Bank := { b with messages := b.messages.eraseIdx index }

theorem Sound.take (h : b.Sound) (index : Nat) : (b.take index).Sound :=
  ⟨fun m hm => h.messages m (List.mem_of_mem_eraseIdx hm), h.transactions, h.accounts⟩

theorem progress_take_of_ne {index : Nat} {m : Message} {info : TransactionInfo}
    (hm : b.messages[index]? = some m) (htoken : ∀ kind, m.token ≠ some (kind, info)) :
    (b.take index).progress info = b.progress info := by
  unfold progress
  congr 1
  funext kind
  rw [tokensOf_eraseIdx hm info kind, tokensOf_singleton_of_ne htoken, Nat.zero_add]
  rfl

theorem progress_take {index : Nat} {m : Message} {kind : Kind} {info : TransactionInfo}
    (hm : b.messages[index]? = some m) (htoken : m.token = some (kind, info)) :
    b.progress info = ((b.take index).progress info).add kind := by
  unfold progress Progress.add
  congr 1
  funext k
  rw [tokensOf_eraseIdx hm info k, tokensOf_singleton htoken, Nat.add_comm]
  rfl

/-- The delivery of a message of a transfer. -/
theorem Orderly.deliver {index : Nat} {m : Message} {kind : Kind} {info : TransactionInfo}
    {s : Stored TransactionState} (h : b.Orderly) (hsound : b'.Sound)
    (hm : b.messages[index]? = some m) (htoken : m.token = some (kind, info))
    (hs : b.transactions.lookup info.transactionId = some s) (hinfo : s.state.info = some info)
    (hadvances : Advances (b.take index) b' kind info s) : b'.Orderly := by
  obtain ⟨hothers, hstored, ⟨s', produced, p₀, hs', hmove, hconsumes, hreplied⟩, htotal, hopened,
    hfails⟩ := hadvances
  have hpos : 0 < (b.progress info).tokens kind := by
    rw [progress_take hm htoken]
    simp [Progress.add]
  rw [← progress_take hm htoken] at hmove
  obtain ⟨hok, hposted⟩ := hmove.goes hconsumes (h.progress info s hs hinfo)
  obtain ⟨hfinishes, hgoes⟩ := hmove.replies (h.progress info s hs hinfo) hpos
  have hinfo' : s'.state.info = some info := hmove.info_eq.trans hinfo
  have hother : ∀ info', Registered b.transactions info' → info' ≠ info →
      b'.progress info' = b.progress info' := by
    intro info' hreg hne
    rw [hothers info' hreg hne, progress_take_of_ne hm]
    intro kind' hkind
    cases hkind.symm.trans htoken
    exact hne rfl
  have hextends : Extends b.transactions b'.transactions := by
    rintro info' ⟨t, ht, hi⟩
    by_cases hid : info'.transactionId = info.transactionId
    · rw [hid] at ht
      cases hs.symm.trans ht
      cases hinfo.symm.trans hi
      exact ⟨s', hs', hinfo'⟩
    · exact ⟨t, (hstored _ hid).trans ht, hi⟩
  refine ⟨hsound, fun f hf => ?_, fun info' t ht hi => ?_, ?_, fun id => ?_⟩
  · rcases hfails f hf with hf | ⟨hcommit, hgenuine⟩
    · exact ⟨(h.failures f hf).1.mono hextends, (h.failures f hf).2⟩
    · exact ⟨hgenuine.mono hextends, hcommit⟩
  · by_cases hid : info'.transactionId = info.transactionId
    · rw [hid] at ht
      cases hs'.symm.trans ht
      cases hinfo'.symm.trans hi
      exact hok
    · have ht' : b.transactions.lookup info'.transactionId = some t :=
        (hstored _ hid).symm.trans ht
      rw [hother info' ⟨t, ht', hi⟩ (by rintro rfl; exact hid rfl)]
      exact h.progress info' t ht' hi
  · have hsum : b'.transactions.total (fun _ s => b'.postedAmount s) =
        b.transactions.total (fun _ s => b.postedAmount s) +
          (b'.postedAmount s' - b.postedAmount s) := by
      refine AList.total_of_lookup_ne hs hs' hstored fun id t hid ht => ?_
      obtain ⟨-, info', hi, rfl⟩ := h.sound.transactions id t ht
      unfold postedAmount
      rw [hi]
      dsimp only
      rw [hother info' ⟨t, ht, hi⟩ (by rintro rfl; exact hid rfl)]
    have hbalance := h.balance
    have htake : (b.take index).total = b.total ∧ (b.take index).opened = b.opened := ⟨rfl, rfl⟩
    have hchange : b'.postedAmount s' - b.postedAmount s = kind.change * info.amount := by
      unfold postedAmount
      rw [hinfo, hinfo']
      dsimp only
      rw [hposted, Int.add_mul]
      omega
    rw [hsum, htotal, hopened]
    omega
  · have hold := h.results id
    unfold repliesOf at hold ⊢
    by_cases hid : id = info.transactionId
    · subst hid
      rw [hs] at hold
      rw [hs']
      rcases hreplied with ⟨hkind, hresults⟩ | ⟨hkind, hresults⟩
      · rw [resultsOf_congr hresults]
        exact hold.trans (hgoes hkind).symm
      · rw [resultsOf_append hresults]
        exact (congrArg (· ++ _) (hold.trans (hfinishes hkind))).trans (List.nil_append _)
    · rw [hstored id hid]
      rcases hreplied with ⟨-, hresults⟩ | ⟨-, hresults⟩
      · exact (resultsOf_congr hresults id).trans hold
      · exact (resultsOf_append_of_ne hresults hid).trans hold

/-! ## Every step -/

theorem progress_send_of_tokenless {ms : List Message} (hms : ms.filterMap Message.token = [])
    (info : TransactionInfo) : (b.send ms).progress info = b.progress info := by
  unfold progress
  congr 1
  funext kind
  rw [send_messages, tokensOf_append, tokensOf_of_nil hms info kind, Nat.add_zero]

/-- A client sends a command. -/
theorem Orderly.send (h : b.Orderly) {ms : List Message}
    (hms : ∀ m ∈ ms, Genuine b.transactions m) (htoken : ms.filterMap Message.token = []) :
    (b.send ms).Orderly :=
  h.congr (h.sound.send hms) (progress_send_of_tokenless htoken) rfl rfl rfl fun _ hf => .inl hf

/-- A client's command fails. -/
theorem Orderly.fail (h : b.Orderly) {c : Command} {f : Failure}
    (hc : GenuineCommand b.transactions c) (hcommit : ¬IsCommit c)
    (htoken : Message.token (.command c) = none) (hf : Failure.events f = []) :
    (b.fail c f).Orderly := by
  refine h.congr (h.sound.fail c ?_) (fun info => ?_) (fail_transactions c f) (fail_results c f) ?_
    fun f' hf' => ?_
  · rintro event rfl
    cases hf
  · unfold Bank.progress held missing
    simp only [fail_accounts, fail_failures, fail_messages, hf, List.append_nil,
      List.count_append]
    congr 1
    · rw [List.count_eq_zero_of_not_mem (l := [(c, f)]), Nat.add_zero]
      intro hmem
      obtain ⟨rfl, -⟩ := Prod.mk.inj (List.mem_singleton.1 hmem)
      cases htoken
    · rw [List.count_eq_zero_of_not_mem (l := [(c, f)]), Nat.add_zero]
      intro hmem
      obtain ⟨rfl, -⟩ := Prod.mk.inj (List.mem_singleton.1 hmem)
      cases htoken
  · rw [Bank.total, fail_accounts, fail_opened]
    rfl
  · rw [fail_failures] at hf'
    rcases List.mem_append.1 hf' with hf' | hf'
    · exact .inl hf'
    · rw [List.mem_singleton.1 hf']
      exact .inr ⟨hc, hcommit⟩

theorem Orderly.createAccount (h : b.Orderly) {id name cardId : String} {amount : Int} :
    (b.handleCommand (.createAccount id name cardId amount)).Orderly := by
  cases hs : b.accounts.lookup id with
  | some s =>
    simp only [Bank.handleCommand, hs]
    exact h.fail trivial not_false rfl rfl
  | none =>
    have hsound : (b.handleCommand (.createAccount id name cardId amount)).Sound :=
      h.sound.handleCommand trivial (fun _ hn => absurd hn List.not_mem_nil)
    rw [handle_createAccount hs] at hsound ⊢
    refine h.congr hsound (fun info => ?_) rfl rfl ?_ fun _ hf => .inl hf
    · have hheld : ∀ type, (({ b with opened := b.opened + amount : Bank }).post id
          ⟨BankAccount.aggregateType.blank, 0⟩ (.accountCreated id amount name cardId)).held info
            type = b.held info type := by
        intro type
        rw [held_post]
        split
        · next hid =>
          rw [held, hid, hs]
          simp [BankAccount.handle, BankAccount.typeOf, BankAccount.aggregateType]
        · rfl
      have hsend : (b.send [.accountEvent (.accountCreated id amount name cardId)]).progress info =
          b.progress info := progress_send_of_tokenless rfl info
      unfold Bank.progress at hsend ⊢
      rw [hheld, hheld]
      injection hsend with htokens
      congr 1
    · have htotal : (({ b with opened := b.opened + amount : Bank }).post id
          ⟨BankAccount.aggregateType.blank, 0⟩ (.accountCreated id amount name cardId)).total =
            amount + b.total := AList.total_insert_of_lookup_none _ hs
      have hopened : (({ b with opened := b.opened + amount : Bank }).post id
          ⟨BankAccount.aggregateType.blank, 0⟩ (.accountCreated id amount name cardId)).opened =
            b.opened + amount := rfl
      omega

/-- A transaction that is not stored has left no trace. -/
theorem progress_of_unregistered (h : b.Orderly) {info : TransactionInfo}
    (hnone : b.transactions.lookup info.transactionId = none) :
    (∀ kind, (b.progress info).tokens kind = 0) ∧ (∀ type, b.held info type = false) ∧
      (b.progress info).missingCredit = 0 ∧ (b.progress info).missingDebit = 0 := by
  have hnot : ¬Registered b.transactions info := by
    rintro ⟨s, hs, -⟩
    cases hnone.symm.trans hs
  refine ⟨fun kind => ?_, fun type => ?_, ?_, ?_⟩
  · refine List.count_eq_zero.2 fun hmem => ?_
    obtain ⟨m, hm, htoken⟩ := List.mem_filterMap.1 hmem
    exact hnot (registered_of_token (h.sound.messages m hm) htoken)
  · cases ha : b.accounts.lookup (info.accountId type) with
    | none => rw [held, ha]; rfl
    | some a =>
      rw [held_of_lookup ha rfl]
      refine decide_eq_false fun ht => ?_
      obtain ⟨st, hst, -⟩ := Option.map_eq_some_iff.1 ht
      obtain ⟨hid, ⟨s, hs, -⟩, -⟩ := (h.sound.accounts _ _ ha).statements _ _ hst
      rw [hid] at hs
      cases hnone.symm.trans hs
  · refine List.count_eq_zero.2 fun hmem => ?_
    exact hnot (h.failures _ hmem).1.2
  · refine List.count_eq_zero.2 fun hmem => ?_
    exact hnot (h.failures _ hmem).1.2

/-- A new transaction is stored, and its event published. -/
theorem Orderly.saveNew (h : b.Orderly) {info : TransactionInfo}
    (hnone : b.transactions.lookup info.transactionId = none) :
    (b.saveTransaction info.transactionId (.new info.transactionId info)).Orderly := by
  have hsound : (b.saveTransaction info.transactionId (.new info.transactionId info)).Sound :=
    h.sound.saveTransaction Carries.new fun s hs => by cases hnone.symm.trans hs
  generalize hb' : b.saveTransaction info.transactionId (.new info.transactionId info) = b'
  rw [hb'] at hsound
  let t : Transaction := .new info.transactionId info
  have htransactions : b'.transactions = b.transactions.insert info.transactionId t.store :=
    hb' ▸ rfl
  have hfailures : b'.failures = b.failures := hb' ▸ rfl
  have hextends : Extends b.transactions b'.transactions := by
    rintro info' ⟨s, hs, hi⟩
    rw [htransactions]
    refine ⟨s, (AList.lookup_insert_ne ?_).trans hs, hi⟩
    intro hid
    rw [hid, hnone] at hs
    cases hs
  have hconcerns : Concerns info
      [.transactionEvent (.transactionSubmitted info.transactionId (some info))] :=
    ⟨[.transactionSubmitted], rfl⟩
  have hother : ∀ info', info' ≠ info → b'.progress info' = b.progress info' := fun info' hne =>
    hb' ▸ progress_send_of_ne (b := b) hconcerns hne.symm
  -- The new transfer has one message under way, and nothing else.
  have hnew : Progress.Ok (b'.progress info) t.state ∧ (b'.progress info).posted t.state = 0 := by
    obtain ⟨htokens, hheld, hmissingCredit, hmissingDebit⟩ := progress_of_unregistered h hnone
    subst hb'
    refine Progress.Ok.of_submitted (fun k => ?_) (hheld .credit) (hheld .debit) hmissingCredit
      hmissingDebit ⟨rfl, rfl, rfl, rfl, rfl⟩
    have hone : tokensOf info
        [.transactionEvent (.transactionSubmitted info.transactionId (some info))] k =
          if k = .transactionSubmitted then 1 else 0 := tokensOf_singleton rfl k
    refine (tokensOf_append info b.messages _ k).trans ?_
    exact (congrArg₂ (· + ·) (htokens k) hone).trans (Nat.zero_add _)
  refine ⟨hsound, fun f hf => ?_, fun info' s hs hi => ?_, ?_, fun id => ?_⟩
  · rw [hfailures] at hf
    exact ⟨(h.failures f hf).1.mono hextends, (h.failures f hf).2⟩
  · rw [htransactions] at hs
    by_cases hid : info'.transactionId = info.transactionId
    · rw [hid, AList.lookup_insert] at hs
      cases hs
      obtain rfl : info = info' := Option.some.inj hi
      exact hnew.1
    · rw [AList.lookup_insert_ne hid] at hs
      rw [hother info' (by rintro rfl; exact hid rfl)]
      exact h.progress info' s hs hi
  · have htotal : b'.total = b.total := hb' ▸ rfl
    have hopened : b'.opened = b.opened := hb' ▸ rfl
    have hposted : b'.postedAmount t.store = 0 := by
      simp [postedAmount, AggregateRoot.store, show t.state.info = some info from rfl, hnew.2]
    have hsame : b.transactions.total (fun _ s => b'.postedAmount s) =
        b.transactions.total fun _ s => b.postedAmount s := by
      refine AList.total_congr fun id s hs => ?_
      obtain ⟨-, info', hi, rfl⟩ := h.sound.transactions id s hs
      have hne : info' ≠ info := by
        rintro rfl
        rw [hnone] at hs
        cases hs
      simp only [postedAmount, hi, hother info' hne]
    rw [htransactions, AList.total_insert_of_lookup_none _ hnone, hposted, hsame, htotal, hopened,
      Int.zero_add]
    exact h.balance
  · have hresults : b'.results = b.results := hb' ▸ rfl
    rw [resultsOf_congr hresults, h.results id, repliesOf, repliesOf, htransactions]
    by_cases hid : id = info.transactionId
    · rw [hid, hnone, AList.lookup_insert]
      rfl
    · rw [AList.lookup_insert_ne hid]

theorem Orderly.submitTransaction (h : b.Orderly) {id debitAccountId creditAccountId : String}
    {amount : Int} :
    (b.handleCommand (.submitTransaction id debitAccountId creditAccountId amount)).Orderly := by
  simp only [Bank.handleCommand]
  split
  · exact h.fail trivial not_false rfl rfl
  · next info hnew =>
    obtain ⟨rfl, -⟩ := TransactionInfo.of_new hnew
    split
    · exact h.fail trivial not_false rfl rfl
    · next hnone => exact h.saveNew hnone

/-- Only events of a transfer make the process manager send something. -/
theorem processManager_of_tokenless {m : Message} (htoken : m.token = none)
    (hevent : ∀ c, m ≠ .command c) : processManager m = [] := by
  cases m with
  | command c => exact absurd rfl (hevent c)
  | accountEvent e => cases e <;> first | rfl | cases htoken
  | transactionEvent e =>
    cases e with
    | transactionSubmitted id info => cases info <;> first | rfl | cases htoken
    | transactionPrepared id info => cases info <;> first | rfl | cases htoken
    | _ => rfl

/-- The delivery of a message that is not delivered again. -/
theorem Orderly.handle (h : b.Orderly) {index : Nat} {m : Message}
    (hm : b.messages[index]? = some m)
    (hexact : ∀ n ∈ (b.take index).messageSums m, Decimal.IsDecimal n) :
    ((b.take index).handle m).Orderly := by
  have hgenuine : Genuine b.transactions m := h.sound.messages m (List.mem_of_getElem? hm)
  have hsound : ((b.take index).handle m).Sound := (h.sound.take index).handle hgenuine hexact
  cases htoken : m.token with
  | some t =>
    obtain ⟨kind, info⟩ := t
    have hinfo : Registered b.transactions info := registered_of_token hgenuine htoken
    obtain ⟨s, hs, hi⟩ := id hinfo
    have hok := h.progress info s hs hi
    rw [progress_take hm htoken] at hok
    refine h.deliver hsound hm htoken hs hi ?_
    cases m with
    | command c =>
      exact advances_handleCommand (h.sound.take index) hgenuine hexact htoken hinfo hs hok
    | accountEvent e => exact advances_event (by simp) htoken hs hok
    | transactionEvent e => exact advances_event (by simp) htoken hs hok
  | none =>
    have htake : (b.take index).Orderly :=
      h.congr (h.sound.take index)
        (fun info => progress_take_of_ne hm fun kind hkind => by cases htoken.symm.trans hkind)
        rfl rfl rfl fun _ hf => .inl hf
    cases m with
    | command c =>
      cases c with
      | createAccount => exact htake.createAccount
      | submitTransaction => exact htake.submitTransaction
      | _ => cases htoken
    | accountEvent e =>
      have hnothing := processManager_of_tokenless htoken (by simp)
      exact htake.send (by simp [hnothing]) (by simp [hnothing])
    | transactionEvent e =>
      have hnothing := processManager_of_tokenless htoken (by simp)
      exact htake.send (by simp [hnothing]) (by simp [hnothing])

theorem orderly_init : init.Orderly where
  sound := sound_init
  failures _ hf := absurd hf List.not_mem_nil
  progress _ _ hs _ := absurd hs (by simp [init])
  balance := rfl
  results _ := rfl

/-- A message that is delivered twice. -/
def Action.IsRedelivery : Action → Prop
  | .redeliver _ => True
  | _ => False

theorem Orderly.step (h : b.Orderly) {a : Action} (ha : ¬a.IsRedelivery) (hexact : b.Exact a)
    (hstep : Bank.step b a = some b') : b'.Orderly := by
  cases a with
  | createAccount =>
    cases hstep
    exact h.send (fun m hm => by cases List.mem_singleton.1 hm; trivial) rfl
  | submitTransaction =>
    cases hstep
    exact h.send (fun m hm => by cases List.mem_singleton.1 hm; trivial) rfl
  | deliver index =>
    obtain ⟨m, hm, rfl⟩ := Option.map_eq_some_iff.1 hstep
    have hsums : ∀ n ∈ b.messageSums m, Decimal.IsDecimal n := Exact.message hexact hm
    exact h.handle hm hsums
  | redeliver index => exact absurd trivial ha

theorem orderly_of_run {actions : List Action} (hactions : ∀ a ∈ actions, ¬a.IsRedelivery)
    (hexact : Machine.Along Bank.step Exact init actions)
    (hrun : Machine.run Bank.step init actions = some b) : b.Orderly := by
  apply ((Machine.Along.of_mem hactions).and hexact).invariant Orderly ?_ orderly_init hrun
  exact fun _ _ _ h ha hstep => h.step ha.1 ha.2 hstep

/-! ## What every run keeps -/

/-- When no message is delivered twice and every sum is exact, no commit fails and each side of a
transfer is posted at most once; the accounts hold what they were opened with and what the transfers
have posted, and when nothing is under way, each transfer has been carried out on both sides or on
neither. -/
theorem conservation {actions : List Action} (hactions : ∀ a ∈ actions, ¬a.IsRedelivery)
    (hexact : Machine.Along Bank.step Exact init actions)
    (hrun : Machine.run Bank.step init actions = some b) :
    (∀ f ∈ b.failures, ¬IsCommit f.1) ∧
      (∀ info s, b.transactions.lookup info.transactionId = some s → s.state.info = some info →
        (b.progress info).creditPosted s.state ≤ 1 ∧
          (b.progress info).debitPosted s.state ≤ 1) ∧
      b.total = b.opened + b.transactions.total (fun _ s => b.postedAmount s) ∧
      (b.messages = [] → b.total = b.opened ∧
        ∀ id s, b.transactions.lookup id = some s →
          s.state.creditCommitted = s.state.debitCommitted) := by
  have h := orderly_of_run hactions hexact hrun
  refine ⟨fun f hf => (h.failures f hf).2, fun info s hs hi => ?_, h.balance, fun hmessages => ?_⟩
  · have hok := h.progress info s hs hi
    have hboth : s.state.bothPrepared ≤ 1 := by
      unfold TransactionState.bothPrepared
      split <;> omega
    have hcredit := hok.creditCommit
    have hdebit := hok.debitCommit
    omega
  · have hnothing : ∀ info kind, (b.progress info).tokens kind = 0 := fun info kind =>
      tokensOf_of_nil (by rw [hmessages]; rfl) info kind
    have hequal : ∀ id s, b.transactions.lookup id = some s →
        s.state.creditCommitted = s.state.debitCommitted ∧ b.postedAmount s = 0 := by
      intro id s hs
      obtain ⟨-, info, hi, rfl⟩ := h.sound.transactions id s hs
      have hok := h.progress info s hs hi
      have hcredit := hok.creditCommit
      have hdebit := hok.debitCommit
      simp only [hnothing, Progress.creditPosted, Progress.debitPosted, Nat.zero_add]
        at hcredit hdebit
      have hsame : s.state.creditCommitted = s.state.debitCommitted := by
        rw [← hdebit] at hcredit
        cases hc : s.state.creditCommitted <;> cases hd : s.state.debitCommitted <;>
          simp [hc, hd] at hcredit ⊢
      refine ⟨hsame, ?_⟩
      simp [postedAmount, hi, Progress.posted, Progress.creditPosted, Progress.debitPosted,
        hnothing, hsame]
    refine ⟨?_, fun id s hs => (hequal id s hs).1⟩
    have hzero : b.transactions.total (fun _ s => b.postedAmount s) = 0 := by
      rw [AList.total_congr fun id s hs => (hequal id s hs).2]
      exact AList.total_zero
    rw [h.balance, hzero, Int.add_zero]

end Orderly

/-- The bank after all messages of the transfer. -/
theorem conservation_transferRun : ∃ b, Machine.run step init transferRun = some b ∧
    b.messages = [] ∧ b.total = b.opened := by
  have hactions : ∀ a ∈ transferRun, ¬a.IsRedelivery := by
    simp [transferRun, Action.IsRedelivery]
  have hexact : Machine.Along step Exact init transferRun := by decide +kernel
  have hend : (Machine.run step init transferRun).map Bank.messages = some [] := by
    decide +kernel
  obtain ⟨b, hrun, hmessages⟩ := Option.map_eq_some_iff.1 hend
  exact ⟨b, hrun, hmessages, ((conservation hactions hexact hrun).2.2.2 hmessages).1⟩

/-- Without the condition: `PrepareAccountCredit` is handled a second time when the transfer is
over, and the amount is credited again. -/
example : (Machine.run step init ([.createAccount "A" "" "" 100, .createAccount "B" "" "" 0,
      .submitTransaction "t" "A" "B" 30] ++ List.replicate 6 (.deliver 0) ++ [.redeliver 0] ++
      List.replicate 17 (.deliver 1) ++ List.replicate 11 (.deliver 0))).map
    (fun b => (b.messages, b.opened, b.total)) = some ([], 100, 130) := by decide +kernel

section Settled

variable {b : Bank}

/-- When no message is delivered twice, every sum is exact and every command has found its account,
then as soon as nothing is under way, each saga is over and has been finished once, with success if
and only if both sides are committed, and no account keeps anything reserved. -/
theorem books_close {actions : List Action} (hactions : ∀ a ∈ actions, ¬a.IsRedelivery)
    (hexact : Machine.Along Bank.step Exact init actions)
    (hrun : Machine.run Bank.step init actions = some b) (hmessages : b.messages = [])
    (hfound : ∀ c args, (c, Failure.thrown (.domainException .objectNotExists args)) ∉ b.failures) :
    (∀ id s, b.transactions.lookup id = some s →
      (s.state.status = .completed ∧ s.state.creditCommitted = true ∧
        s.state.debitCommitted = true ∧ b.resultsOf id = [⟨true, none⟩]) ∨
      (s.state.status = .prepareFailed ∧ s.state.creditCommitted = false ∧
        s.state.debitCommitted = false ∧ b.resultsOf id = [⟨false, s.state.remark⟩])) ∧
      ∀ id s, b.accounts.lookup id = some s →
        s.state.availableBalance = s.state.currentBalance := by
  have h := orderly_of_run hactions hexact hrun
  have hnothing : ∀ info kind, (b.progress info).tokens kind = 0 := fun info kind =>
    tokensOf_of_nil (by rw [hmessages]; rfl) info kind
  have hmissing : ∀ c id, b.missing c id = 0 := fun c id =>
    List.count_eq_zero.2 (hfound c [id])
  have hover : ∀ info s, b.transactions.lookup info.transactionId = some s →
      s.state.info = some info → b.held info .debit = false ∧
        ((s.state.status = .completed ∧ s.state.creditCommitted = true ∧
          s.state.debitCommitted = true) ∨ (s.state.status = .prepareFailed ∧
          s.state.creditCommitted = false ∧ s.state.debitCommitted = false)) := by
    intro info s hs hi
    obtain ⟨hcredit, hdebit, hcc, hdc, -, -, -, -, -, hheld, hcompleted⟩ := h.progress info s hs hi
    have hmc : (b.progress info).missingCredit = 0 := hmissing _ _
    have hmd : (b.progress info).missingDebit = 0 := hmissing _ _
    have hdebitHeld : (b.progress info).debitHeld = b.held info .debit := rfl
    simp only [hnothing, hmc, hmd, Progress.creditReported, Progress.debitReported,
      Progress.creditPosted, Progress.debitPosted, Progress.failed, TransactionState.bothPrepared,
      Nat.zero_add, Nat.add_zero] at hcredit hdebit hcc hdc hheld
    rw [hdebitHeld] at hheld
    grind
  refine ⟨fun id s hs => ?_, fun id s hs => ?_⟩
  · obtain ⟨-, info, hi, rfl⟩ := h.sound.transactions id s hs
    have hresults : b.resultsOf info.transactionId = s.state.replies :=
      (h.results _).trans (by rw [repliesOf, hs]; rfl)
    rcases (hover info s hs hi).2 with ⟨hstatus, hc, hd⟩ | ⟨hstatus, hc, hd⟩
    · exact .inl ⟨hstatus, hc, hd, by rw [hresults, TransactionState.replies, hstatus]⟩
    · exact .inr ⟨hstatus, hc, hd, by rw [hresults, TransactionState.replies, hstatus]⟩
  · -- A debit that is still prepared would be one of a transfer that is not over.
    have hreserved : s.state.reserved = 0 := by
      have hzero : ∀ transactionId st,
          s.state.transactionStatements.lookup transactionId = some st →
            st.transaction.reservation st.type = 0 := by
        intro transactionId st hst
        obtain ⟨hid, ⟨t, ht, hi⟩, haccount⟩ := (h.sound.accounts id s hs).statements _ _ hst
        cases htype : st.type with
        | credit => rfl
        | debit =>
          have hheld := (hover _ t ht hi).1
          rw [htype] at haccount
          rw [held_of_lookup hs haccount.symm, decide_eq_false_iff_not] at hheld
          refine absurd ?_ hheld
          rw [BankAccount.typeOf, hid, hst]
          exact congrArg some htype
      exact (AList.total_congr hzero).trans AList.total_zero
    have hbalance := (h.sound.accounts id s hs).balance
    omega

/-- The transfer is over, and `B` has what it was sent. -/
theorem books_close_transferRun : ∃ b s, Machine.run step init transferRun = some b ∧
    b.accounts.lookup "B" = some s ∧ s.state.availableBalance = s.state.currentBalance := by
  have hactions : ∀ a ∈ transferRun, ¬a.IsRedelivery := by
    simp [transferRun, Action.IsRedelivery]
  have hexact : Machine.Along step Exact init transferRun := by decide +kernel
  have hend : (Machine.run step init transferRun).map
      (fun b => (b.messages, b.failures, (b.accounts.lookup "B").isSome)) =
        some ([], [], true) := by
    decide +kernel
  obtain ⟨b, hrun, hfacts⟩ := Option.map_eq_some_iff.1 hend
  obtain ⟨hmessages, hfailures, hB⟩ : b.messages = [] ∧ b.failures = [] ∧ _ := by
    simpa only [Prod.mk.injEq] using hfacts
  obtain ⟨s, hs⟩ := Option.isSome_iff_exists.1 hB
  have hclosed := books_close hactions hexact hrun hmessages (by simp [hfailures])
  exact ⟨b, s, hrun, hs, hclosed.2 "B" s hs⟩

end Settled

end Bank

end IFramework.Sample
