import PaymentBilling.Spec.Handlers
import PaymentBilling.Spec.Journal

/-!
# Spec.Commits

Every operation keeps to its commits.

A call reads a row in one statement and commits in a later one; what it may
still use of the row is what no commit undoes.  The credits of an operation are
committed on their own, in the middle of the transaction that they belong to.
-/

set_option linter.unusedSectionVars false

namespace PaymentBilling

open Relational Transact

variable {ι : Type} {ops : ι → Operation} {i : ι} {I : Data → Prop} {P : Protocol locking I}
  {stack : List (Tx RowWrite RowLock)} {past : List (Event Stmt Err)}

/-! ## Credits -/

namespace CreditsService

section Credits

variable (src : CreditSource) {userId amount : Js} {type : CreditTransactionType}
  {description : String} {metadata : Metadata}

theorem wp_grant (hP : (journal ops).Client i P) (hsrc : (ops i).creditSource? = some src)
    (hmoves : ∀ user n db, I db → userId = .str user → amount = .int n → (ops i).Moves user n db)
    (trace : List (Event Stmt Err)) (db : Data) :
    P.wp (grantCredits userId amount type description src.key metadata)
      (fun r c' db' => c'.stack = stack ∧ ∀ a, r = .ok a → Logged src.key db') ⟨stack, trace⟩ db := by
  refine wp_grantCredits P (K := fun _ => True) (N := fun _ => True) (fun _ _ _ _ _ _ => trivial)
    trivial (fun _ _ _ => trivial) (fun _ _ _ _ _ _ => trivial)
    (fun _ _ _ hc _ _ => ⟨hc, fun _ ha => by cases ha⟩) (fun _ _ _ hc _ hlogged => ⟨hc, fun _ _ => hlogged⟩) ?_
  intro r t c' db₁ user n huser hn _ hstack _ hs _ _ hchange
  have hfits := hs.fits hstack
  exact ⟨hP.keeps _ _ _ hs.valid hs.inv hfits (.credits src user n hsrc
    (hmoves user n db₁ hs.inv huser hn) hchange), rfl, fun _ _ => hchange.logged_self hfits⟩

theorem returns_grant (hP : (journal ops).Client i P) (hsrc : (ops i).creditSource? = some src)
    (hmoves : ∀ user n db, I db → userId = .str user → amount = .int n → (ops i).Moves user n db) :
    P.Returns stack (grantCredits userId amount type description src.key metadata) := fun trace db =>
  P.wp_mono (fun _ _ _ hr => hr.1) (wp_grant src hP hsrc hmoves trace db)

theorem gives_grant (hP : (journal ops).Client i P) (hsrc : (ops i).creditSource? = some src)
    (hmoves : ∀ user n db, I db → userId = .str user → amount = .int n → (ops i).Moves user n db) :
    P.Gives stack (grantCredits userId amount type description src.key metadata)
      fun _ => HasLog src.key := fun trace db hv hs _ =>
  P.wp_mono (fun _ _ _ hr => ⟨hr.1.1, fun a ha => (hasLog_iff hr.2.1).mpr (hr.1.2 a ha)⟩)
    (P.wp_stackOk hv hs (wp_grant src hP hsrc hmoves trace db))

theorem returns_deduct (hP : (journal ops).Client i P) (hsrc : (ops i).creditSource? = some src)
    (hkey : givenKey (some src.key) = some src.key)
    (hmoves : ∀ user n db, I db → userId = .str user → amount = .int n → (ops i).Moves user (-n) db) :
    P.Returns stack (deductCredits userId amount description (some src.key) metadata) := by
  intro trace db
  refine wp_deductCredits P (K := fun _ => True) (N := fun _ => True) (fun _ _ _ _ _ _ => trivial)
    trivial (fun _ _ _ _ _ => trivial) (fun _ _ _ _ _ _ _ _ => trivial) (fun _ _ _ hc _ _ => hc)
    (fun _ _ _ _ _ hc _ _ => hc) ?_
  intro r t c' db₁ user n huser hn _ hstack _ hs _ hchange
  rw [hkey] at hchange
  exact ⟨hP.keeps _ _ _ hs.valid hs.inv (hs.fits hstack) (.credits src user (-n) hsrc
    (hmoves user n db₁ hs.inv huser hn) hchange), rfl⟩

/-- A change of credits whose failure is only logged. -/
theorem returns_swallowed {p : Action CreditsResult} (hp : P.Returns stack p) :
    P.Returns stack (tryCatch (do let _ ← p; return ()) fun _ => return ()) :=
  Protocol.returns_tryCatch (Protocol.returns_bind hp fun _ => Protocol.returns_pure ())
    fun _ => Protocol.returns_pure ()

end Credits

end CreditsService

/-! ## The user of a ledger transaction -/

section Registers

variable {user : Js}

/-- The effect of a body that writes ledger transactions of the user only. -/
abbrev registering (user : Js) (α : Type) : Effect locking α := .writes locking (Registers user)

theorem does_query_registering {α : Type} {s : Stmt α} (h : s.writes ≠ some .ledgerTransactions) :
    P.Does past (query s) (registering user α) := by
  refine Protocol.does_exec_writes fun env db a ws _ hx w hw txn heq => ?_
  have htable := table_of_exec hx w hw
  rw [heq] at htable
  exact absurd htable h

namespace LedgerService

theorem does_recordEntries_registering (id : String) (entries : List LedgerEntryInput) :
    P.Does past (recordEntries id entries) (registering user Unit) := by
  induction entries with
  | nil => exact Protocol.does_pure_writes ()
  | cons entry entries ih =>
      unfold recordEntries
      refine Protocol.does_bind_writes (does_query_registering (by simp [Stmt.writes])) fun found => ?_
      cases found with
      | none => exact Protocol.does_throw _
      | some account =>
          refine Protocol.does_bind_writes (does_query_registering (by simp [Stmt.writes])) fun _ => ?_
          refine Protocol.does_bind_writes (does_query_registering (by simp [Stmt.writes])) fun _ => ?_
          exact ih

theorem does_executeRecord_registering (description : String) (entries : List LedgerEntryInput)
    (status : LedgerTransactionStatus) (metadata : Metadata) (key : Option String) :
    P.Does past (executeRecord user description entries status metadata key)
      (registering user TransactionResponse) := by
  unfold executeRecord
  refine Protocol.does_bind_writes (Protocol.does_exec_writes fun env db txn ws _ hx w hw row heq => ?_)
    fun txn => Protocol.does_bind_writes (does_recordEntries_registering _ _) fun _ =>
      Protocol.does_bind_writes (does_query_registering (by simp [Stmt.writes])) fun found => ?_
  · obtain ⟨owner, howner, rfl, htxn⟩ := exec_ledgerTransactionCreate hx
    obtain rfl := List.mem_singleton.mp hw
    cases heq
    rw [htxn]
    exact howner
  · cases found with
    | none => exact Protocol.does_throw _
    | some _ => exact Protocol.does_pure_writes _

theorem does_recordTransaction_registering (description : String) (entries : List LedgerEntryInput)
    (status : LedgerTransactionStatus) (metadata : Metadata) (key : Option String) :
    P.Does past (recordTransaction user description entries status metadata true key)
      (registering user TransactionResponse) := by
  have hrecord : ∀ key, P.Does past (validateAndRecord user description entries status metadata true key)
      (registering user TransactionResponse) := by
    intro key
    unfold validateAndRecord
    cases validate entries with
    | error e => exact Protocol.does_throw e
    | ok _ => exact does_executeRecord_registering _ _ _ _ _
  unfold recordTransaction
  cases key.filter (· ≠ "") with
  | none => exact hrecord none
  | some k =>
      refine Protocol.does_bind_writes (does_query_registering (by simp [Stmt.writes])) fun found => ?_
      cases found with
      | none => exact hrecord _
      | some _ => exact Protocol.does_pure_writes _

theorem does_account_registering (userId : Js) (type : LedgerAccountType) :
    P.Does past (do let account ← query (.ledgerAccountUpsert userId type); return account.id)
      (registering user String) :=
  Protocol.does_bind_writes (does_query_registering (by simp [Stmt.writes])) fun _ =>
    Protocol.does_pure_writes _

/-- A transaction between two accounts that are found or created first. -/
theorem does_transfer_registering {first second : Js} {firstType secondType : LedgerAccountType}
    {entries : String → String → List LedgerEntryInput} {description : String}
    {status : LedgerTransactionStatus} {metadata : Metadata} {key : Option String} {α : Type}
    {rest : TransactionResponse → Action α}
    (hrest : ∀ response, P.Does past (rest response) (registering user α)) :
    P.Does past ((do let account ← query (.ledgerAccountUpsert first firstType); return account.id)
      >>= fun a => (do let account ← query (.ledgerAccountUpsert second secondType); return account.id)
      >>= fun b => recordTransaction user description (entries a b) status metadata true key >>= rest)
      (registering user α) :=
  Protocol.does_bind_writes (does_account_registering _ _) fun _ =>
    Protocol.does_bind_writes (does_account_registering _ _) fun _ =>
      Protocol.does_bind_writes (does_recordTransaction_registering _ _ _ _ _) hrest

end LedgerService

end Registers

/-! ## Plain tables -/

section Plain

variable {α β : Type}

/-- The effect of a body that writes plain tables only. -/
abbrev plainEffect (α : Type) : Effect locking α := .writes locking (·.table ∈ plainTables)

theorem does_query_plain {s : Stmt α} (h : ∀ t, s.writes = some t → t ∈ plainTables) :
    P.Does past (query s) (plainEffect α) :=
  Protocol.does_exec_writes fun _ _ _ _ _ hx w hw => h _ (table_of_exec hx w hw)

/-- Credits that are committed on their own are no part of the transaction. -/
theorem does_returns_plain {p : Action α} (hp : Only anyStmt p 0) (h : ∀ stack, P.Returns stack p) :
    P.Does past p (plainEffect α) := by
  refine Protocol.does_weaken (Protocol.does_of_returns hp h) fun _ ws _ hws => ?_
  obtain rfl : ws = [] := hws
  intro w hw
  cases hw

theorem returns_plain (hP : (journal ops).Client i P) {s : Stmt α}
    (h : ∀ t, s.writes = some t → t ∈ plainTables) : P.Ends [] (query s) :=
  hP.gives_exec fun _ _ _ _ _ _ hx => ⟨.inr (.plain fun w hw => h _ (table_of_exec hx w hw)), trivial⟩

theorem ends_transaction_plain (hP : (journal ops).Client i P) {p : Action α}
    (hp : ∀ past, P.Does past p (plainEffect α)) : P.Returns stack (transaction p) :=
  Protocol.returns_transaction hp fun _ ws c db hv hi hf hx => hP.keeps c db ws hv hi hf (.plain hx)

end Plain

/-! ## Events -/

namespace SubscriptionsService

theorem does_createOrUpdate_plain (params : GatewayActivation) :
    P.Does past (createOrUpdateFromGateway params) (plainEffect Subscription) :=
  Protocol.does_bind_writes (does_query_plain (by simp [Stmt.writes, plainTables])) fun _ =>
    Protocol.does_bind_writes (does_query_plain (by simp [Stmt.writes, plainTables])) fun _ =>
      Protocol.does_pure_writes _

theorem does_cancelImmediately_plain (userId : Js) :
    P.Does past (cancelImmediately userId) (plainEffect (Option Subscription)) := by
  refine Protocol.does_bind_writes (does_query_plain (by simp [Stmt.writes])) fun found => ?_
  cases found with
  | none => exact Protocol.does_pure_writes _
  | some _ =>
      exact Protocol.does_bind_writes (does_query_plain (by simp [Stmt.writes, plainTables])) fun _ =>
        Protocol.does_pure_writes _

end SubscriptionsService

namespace AuthorizeNetWebhookController

variable {config : AuthorizeNetConfig} {req : AuthorizeNetRequest} {data : AuthorizeNetData}

theorem does_recordCharge_plain (data : AuthorizeNetData) (plan : Js) :
    P.Does past (recordCharge data plan) (plainEffect Unit) := by
  unfold recordCharge
  split
  · exact Protocol.does_bind_writes (does_query_plain (by simp [Stmt.writes, plainTables])) fun _ =>
      Protocol.does_pure_writes _
  · exact Protocol.does_pure_writes _

theorem does_chargeApproved_plain (hP : (journal ops).Client i P) (hop : ops i = .card config req)
    (htype : EventType.ofJs req.body.type = .chargeApproved) (hdata : req.body.data = some data) :
    P.Does past (chargeApproved data) (plainEffect Unit) := by
  unfold chargeApproved
  split
  · cases hamount : creditAmount data.contextRef with
    | none => exact Protocol.does_pure_writes _
    | some amount =>
        refine Protocol.does_bind_writes (does_returns_plain
          (anyStmt_of_only (CreditsService.grantCredits_only ..)) fun stack =>
            CreditsService.returns_grant (.charge data.transactionId.text) hP ?_ ?_)
          fun _ => does_recordCharge_plain _ _
        · simp [hop, Operation.creditSource?, htype, hdata]
        · intro user n db _ huser hn
          cases hn
          rw [hop]
          refine ⟨data, hdata, huser, ?_⟩
          simp only [htype]
          exact hamount
  · exact does_recordCharge_plain _ _

theorem does_chargeRefunded_plain (hP : (journal ops).Client i P) (hop : ops i = .card config req)
    (htype : EventType.ofJs req.body.type = .chargeRefunded) (hdata : req.body.data = some data) :
    P.Does past (chargeRefunded data) (plainEffect Unit) := by
  unfold chargeRefunded
  split
  · cases hamount : creditAmount data.contextRef with
    | none => exact Protocol.does_pure_writes _
    | some amount =>
        refine does_returns_plain (only_tryCatch (only_bind (anyStmt_of_only
          (CreditsService.deductCredits_only ..)) fun _ => only_pure _) fun _ => only_pure _) fun stack =>
            CreditsService.returns_swallowed (CreditsService.returns_deduct
              (.refundedCharge data.transactionId.text) hP ?_ ?_ ?_)
        · simp [hop, Operation.creditSource?, htype, hdata]
        · exact CreditsService.givenKey_append (by decide)
        · intro user n db _ huser hn
          cases hn
          rw [hop]
          refine ⟨data, hdata, huser, ?_⟩
          simp only [htype, Int.neg_neg]
          exact hamount
  · exact Protocol.does_pure_writes _

theorem does_applyEvent_plain (hP : (journal ops).Client i P) (hop : ops i = .card config req)
    (htype : EventType.ofJs req.body.type ≠ .chargebackReceived) :
    P.Does past (applyEvent req.body.type req.body.data) (plainEffect Unit) := by
  have hactivated : ∀ data, P.Does past (subscriptionActivated data) (plainEffect Unit) := by
    intro data
    unfold subscriptionActivated
    split
    · exact Protocol.does_throw _
    · exact Protocol.does_bind_writes (SubscriptionsService.does_createOrUpdate_plain _) fun _ =>
        does_recordCharge_plain _ _
  have hcanceled : ∀ userId, P.Does past (do
      let _ ← SubscriptionsService.cancelImmediately userId
      return ()) (plainEffect Unit) := fun userId =>
    Protocol.does_bind_writes (SubscriptionsService.does_cancelImmediately_plain userId) fun _ =>
      Protocol.does_pure_writes _
  unfold applyEvent
  cases hkind : EventType.ofJs req.body.type with
  | unhandled => exact Protocol.does_pure_writes _
  | chargebackReceived => exact absurd hkind htype
  | _ =>
      cases hdata : req.body.data with
      | none => exact Protocol.does_throw _
      | some data =>
          first
          | exact hactivated data
          | exact hcanceled data.userId
          | exact does_chargeApproved_plain hP hop hkind hdata
          | exact does_chargeRefunded_plain hP hop hkind hdata

theorem returns_takeBack (hP : (journal ops).Client i P) (hop : ops i = .card config req)
    (htype : EventType.ofJs req.body.type = .chargebackReceived) (hdata : req.body.data = some data)
    (d : Option Dispute) : P.Returns stack (takeBack data d) := by
  cases d with
  | none => exact Protocol.returns_pure _
  | some dispute =>
      refine CreditsService.returns_swallowed (CreditsService.returns_deduct
        (.chargeback data.transactionId.text) hP ?_ ?_ ?_)
      · simp [hop, Operation.creditSource?, htype, hdata]
      · exact CreditsService.givenKey_append (by decide)
      · intro user n db _ huser hn
        rw [hop]
        refine ⟨data, hdata, huser, ?_⟩
        simp only [htype, Int.neg_neg]
        exact hn

theorem does_openReversal_registering (data : AuthorizeNetData) :
    P.Does past (openReversal data) (registering data.userId (Option Dispute)) := by
  unfold openReversal DisputesService.createDispute
  refine Protocol.does_bind_writes (Protocol.does_bind_writes (does_query_registering
    (by simp [Stmt.writes])) fun found => ?_) fun dispute => ?_
  · cases found with
    | none => exact does_query_registering (by simp [Stmt.writes])
    | some _ => exact Protocol.does_pure_writes _
  split
  · exact Protocol.does_pure_writes _
  · refine Protocol.does_bind_writes (LedgerService.does_transfer_registering fun response => ?_) fun _ =>
      Protocol.does_pure_writes _
    exact Protocol.does_bind_writes (does_query_registering (by simp [Stmt.writes])) fun _ =>
      Protocol.does_pure_writes _

theorem returns_recordCard (hP : (journal ops).Client i P) (hop : ops i = .card config req) :
    P.Returns stack (recordAndApply req.body) := by
  have hrecord : ∀ past, P.Does past (query (.processedWebhookCreate req.body.eventId "authorize_net"
      req.body.type)) (plainEffect ProcessedWebhook) := fun past =>
    does_query_plain (by simp [Stmt.writes, plainTables])
  by_cases htype : EventType.ofJs req.body.type = .chargebackReceived
  · cases hdata : req.body.data with
    | none =>
        refine ends_transaction_plain hP fun past => Protocol.does_bind_writes (hrecord past) fun _ => ?_
        rw [applyEvent, htype, hdata]
        exact Protocol.does_throw _
    | some data =>
        rw [recordAndApply_eq (EventType.eq_of_chargeback htype) hdata]
        refine Protocol.returns_transaction (fun past => Protocol.does_bind (Protocol.does_and
          (does_delivery P req.body data) (Protocol.does_bind_writes (does_query_registering
            (by simp [Stmt.writes])) fun _ => does_openReversal_registering data)) fun d =>
              Protocol.does_of_returns (anyStmt_of_only (takeBack_only data d)) fun stack =>
                returns_takeBack hP hop htype hdata d) ?_
        rintro _ _ c db hv hi hfits ⟨d, ws, ws', rfl, ⟨hdelivery, hregisters⟩, hnothing⟩
        obtain rfl : ws' = [] := hnothing
        rw [List.append_nil] at hfits ⊢
        exact hP.keeps c db ws hv hi hfits
          (.chargeback config req data d hop htype hdata hdelivery hregisters)
  · exact ends_transaction_plain hP fun past => Protocol.does_bind_writes (hrecord past) fun _ =>
      does_applyEvent_plain hP hop htype

end AuthorizeNetWebhookController

theorem SolanaConfirmationController.returns_recordChain (hP : (journal ops).Client i P)
    {setting : Option String} {event : SolanaEvent} {data : SolanaData}
    (hop : ops i = .chain setting event) (hdata : event.data = some data) :
    P.Returns stack (recordAndApply data) := by
  refine ends_transaction_plain hP fun past => Protocol.does_bind_writes
    (does_query_plain (by simp [Stmt.writes, plainTables])) fun _ => ?_
  have hgrant : P.Does past (creditPayment data) (plainEffect Unit) := by
    refine Protocol.does_bind_writes (does_returns_plain
      (anyStmt_of_only (CreditsService.grantCredits_only ..)) fun stack =>
        CreditsService.returns_grant (.solanaCharge data.txHash.text) hP ?_ ?_) fun _ =>
          Protocol.does_bind_writes (does_query_plain (by simp [Stmt.writes, plainTables])) fun _ =>
            Protocol.does_pure_writes _
    · simp [hop, Operation.creditSource?, hdata]
    · intro user n db _ huser hn
      rw [hop]
      exact ⟨data, hdata, huser, hn⟩
  rw [applyConfirmation_eq]
  split
  · exact Protocol.does_bind_writes (SubscriptionsService.does_createOrUpdate_plain _) fun _ => hgrant
  · exact hgrant

/-! ## Refund requests -/

namespace RefundsService

variable {seen : RefundRequest}

theorem ends_createRefundRequest (hP : (journal ops).Client i P) {userId : String}
    {data : CreateRefundRequestDto} (hop : ops i = .createRefund userId data) :
    P.Ends [] (createRefundRequest userId data) := by
  unfold createRefundRequest
  split
  · exact Protocol.gives_throw _
  next hpositive =>
  split
  · exact Protocol.gives_throw _
  next hgateway =>
  refine Protocol.ends_bind (returns_plain hP (by simp [Stmt.writes])) fun subscription => ?_
  split
  · exact Protocol.gives_throw _
  refine Protocol.ends_bind ?_ fun resolvedTxnId => ?_
  · unfold resolveTxnId
    split
    · refine Protocol.ends_bind (returns_plain hP (by simp [Stmt.writes])) fun latest => ?_
      cases latest with
      | none => exact Protocol.ends_pure _
      | some _ => exact Protocol.ends_pure _
    · exact Protocol.ends_pure _
  · refine hP.gives_exec fun env r ws db _ _ hx => ?_
    obtain ⟨n, hn, -, rfl, hr⟩ := exec_refundCreate hx
    have hn : data.amount = .int n := hn
    refine ⟨.inr (.request userId data r hop ⟨n, resolvedTxnId, hn, ?_, fun htype hnone => ?_, hr⟩), trivial⟩
    · simpa [hn] using hpositive
    · exact hgateway ⟨htype, hnone⟩

/-- A review writes what it says, whatever has become of the request since. -/
theorem ends_review (hP : (journal ops).Client i P) {id verb : String} {call : RefundCall}
    {data : RefundUpdate} (hop : ops i = .refund id call) (hdata : ∀ now, call.Reviews (data.patch now)) :
    P.Ends [] (findPending id verb >>= fun _ => query (.refundUpdate id data)) := by
  refine Protocol.ends_bind ?_ fun _ => hP.gives_exec fun env r ws db _ _ hx => ?_
  · unfold findPending
    refine Protocol.ends_bind (returns_plain hP (by simp [Stmt.writes])) fun found => ?_
    cases found with
    | none => exact Protocol.gives_throw _
    | some refund =>
        simp only
        split
        · exact Protocol.gives_throw _
        · exact Protocol.ends_pure _
  · obtain ⟨old, -, -, rfl⟩ := exec_refundUpdate hx
    exact ⟨.inr (.review id call _ hop (hdata env.now)), trivial⟩

/-- The credits of a reviewed request. -/
theorem moves_of_reviewed {db : Data} (h : Reviewed seen db) :
    (Operation.refund seen.id .process).Moves seen.userId seen.credited db := by
  obtain ⟨r, hr, hsame, hstatus⟩ := h.found
  refine ⟨r, hr, hsame.userId, hstatus, ?_⟩
  rw [RefundRequest.credited, RefundRequest.credited, hsame.type, hsame.amount]

theorem gives_processCreditRefund (hP : (journal ops).Client i P)
    (hop : ops i = .refund seen.id .process) (hI : ∀ db, I db → Reviewed seen db)
    (htype : seen.type = .CREDITS) :
    P.Gives [] (processCreditRefund seen) fun _ => Settled seen := by
  refine hP.gives_bind (CreditsService.gives_grant (.refund seen.id) hP
    (by simp [hop, Operation.creditSource?]) fun user n db hi huser hn => ?_)
    (fun _ => .of_le fun _ _ hle h => h.mono hle) fun _ => Protocol.gives_pure fun db hi => ?_
  · cases huser
    cases hn
    have hmoves := moves_of_reviewed (hI db hi)
    rw [RefundRequest.credited, htype] at hmoves
    rw [hop]
    exact hmoves
  · rw [Settled, htype]
    exact hi.2

/-- The gateway has refunded what the answer says. -/
def Answered (id : String) (result : RefundResult) (db : Data) : Prop :=
  ∃ g, result = ⟨g.gatewayRefundId, g.refundedAmount⟩ ∧ GatewayRefunded id g db

theorem Answered.mono {id : String} {result : RefundResult} {db db' : Data} (h : Answered id result db)
    (hle : schema.le db db') : Answered id result db' := by
  obtain ⟨g, hresult, hg⟩ := h
  exact ⟨g, hresult, hg.mono hle⟩

theorem gives_refundCharge (hP : (journal ops).Client i P) (hop : ops i = .refund seen.id .process)
    (hI : ∀ db, I db → Reviewed seen db) (htype : seen.type = .PAYMENT) {gateway : PaymentGateway}
    {txn : String} (hgateway : seen.gatewayType = some gateway)
    (htxn : seen.originalGatewayTransactionId = some txn) :
    P.Gives [] (refundCharge gateway ⟨txn, seen.amount, refundKey seen.id⟩) (Answered seen.id) := by
  unfold refundCharge
  refine hP.gives_bind (C := fun answer db => ∀ result, answer = .ok result → Answered seen.id result db)
    (hP.gives_exec fun env answer ws db hv hi hx => ?_)
    (fun answer => .of_le ?_) fun answer => ?_
  · obtain ⟨g, hanswer, hkey, hrow⟩ := exec_refundCharge_row hx
    have hanswered : ∀ db', GatewayRefunded seen.id g db' →
        ∀ result, answer = .ok result → Answered seen.id result db' := by
      intro db' hg result hr
      rw [hanswer] at hr
      refine ⟨g, ?_, hg⟩
      unfold gatewayAnswer at hr
      split at hr
      · cases hr
      · exact (Except.ok.inj hr).symm
    rcases hrow with ⟨hfind, rfl⟩ | ⟨hnone, rfl, hg⟩
    · exact ⟨.inl rfl, hanswered db hfind⟩
    · refine ⟨.inr (.charge seen g hop (hI db hi) htype ?_), hanswered _ ?_⟩
      · rw [hg]
        exact ⟨rfl, hgateway, htxn, rfl⟩
      · show schema.find .gatewayRefunds (refundKey seen.id)
          (schema.apply (.insert .gatewayRefunds g) db) = some g
        rw [Schema.find_insert, hnone]
        simp [schema, hkey]
  · exact fun db db' hle h result hr => (h result hr).mono hle
  · cases answer with
    | error e => exact Protocol.gives_throw _
    | ok result => exact Protocol.gives_pure fun db hi => hi.2 result rfl

theorem does_recordRows_registering (refund : RefundRequest) (result : RefundResult) :
    P.Does past (recordRows refund result) (registering (.str refund.userId) Unit) :=
  LedgerService.does_transfer_registering fun _ =>
    Protocol.does_bind_writes (does_query_registering (by simp [Stmt.writes])) fun _ =>
      Protocol.does_pure_writes _

theorem gives_recordRefund (hP : (journal ops).Client i P) (hop : ops i = .refund seen.id .process)
    {result : RefundResult} (hI : ∀ db, I db → Reviewed seen db)
    (hanswered : ∀ db, I db → Answered seen.id result db) (htype : seen.type = .PAYMENT) :
    P.Gives [] (recordRefund seen result) fun _ => Settled seen := by
  have hdeduct : ∀ stack, P.Returns stack (deductRefunded seen) := fun stack => by
    refine CreditsService.returns_swallowed (CreditsService.returns_deduct (.refund seen.id) hP
      (by simp [hop, Operation.creditSource?]) (CreditsService.givenKey_append (by decide))
      fun user n db hi huser hn => ?_)
    cases huser
    cases hn
    have hmoves := moves_of_reviewed (hI db hi)
    rw [RefundRequest.credited, htype] at hmoves
    rw [hop]
    exact hmoves
  refine hP.gives_transaction (fun past => Protocol.does_bind (Protocol.does_and
    (does_recordRows seen result) (does_recordRows_registering seen result)) fun _ =>
      Protocol.does_of_returns (anyStmt_of_only (deductRefunded_only seen)) hdeduct) ?_
  rintro _ _ db hv hi hfits ⟨_, ws, ws', rfl, ⟨⟨response, ws₁, ws₂, rfl, htransfer, hpaid⟩, hregisters⟩,
    hnothing⟩
  obtain rfl : ws' = [] := hnothing
  obtain ⟨g, rfl, hg⟩ := hanswered db hi
  obtain rfl : ws₂ = [.update .refundRequests seen.id (RefundPatch.paymentRefundId g.gatewayRefundId)] :=
    hpaid
  rw [List.append_nil] at hfits ⊢
  have htransferred := transferred_of_rel htransfer
  refine ⟨.paid seen g _ hop (hI db hi) htype hg htransferred fun w hw =>
    hregisters w (List.mem_append_left _ hw), ?_⟩
  obtain ⟨r, hr, -, -⟩ := (hI db hi).found
  have hfind : schema.find .refundRequests seen.id (postgres.applyAll ws₁ db) = some r := by
    rw [Schema.find, htransferred.other (by decide)]
    exact hr
  rw [Settled, htype, postgres.applyAll_append]
  refine ⟨(RefundPatch.paymentRefundId g.gatewayRefundId).apply r, ?_, by simp [RefundPatch.apply]⟩
  rw [applyAll_single, find_refundPatch, hfind]
  rfl

/-- When its money is moved without an error, the request is settled. -/
theorem gives_dispatch (hP : (journal ops).Client i P) (hop : ops i = .refund seen.id .process)
    (hI : ∀ db, I db → Reviewed seen db) : P.Gives [] (dispatch seen) fun _ => Settled seen := by
  unfold dispatch
  cases htype : seen.type with
  | CREDITS => exact gives_processCreditRefund hP hop hI htype
  | PAYMENT =>
      simp only
      unfold processPaymentRefund
      split
      · next hpaid =>
        refine Protocol.gives_pure fun db hi => ?_
        rw [Settled, htype]
        refine (hI db hi).paid fun hnone => ?_
        rw [hnone] at hpaid
        cases hpaid
      split
      · exact Protocol.gives_throw _
      next gateway hgateway =>
      split
      · exact Protocol.gives_throw _
      next txn htxn =>
      have htxn : seen.originalGatewayTransactionId = some txn := (Option.filter_eq_some_iff.mp htxn).1
      refine hP.gives_bind (gives_refundCharge hP hop hI htype hgateway htxn)
        (fun _ => .of_le fun _ _ hle h => h.mono hle) fun result => ?_
      exact gives_recordRefund (hP.knowing (.of_le fun _ _ hle h => h.mono hle)) hop (fun db hi => hI db hi.1)
        (fun db hi => hi.2) htype

theorem ends_processRefund (hP : (journal ops).Client i P) {id : String}
    (hop : ops i = .refund id .process) : P.Ends [] (processRefund id) := by
  unfold processRefund
  refine hP.gives_bind (C := fun found db => ∀ seen, found = some seen → seen.id = id ∧
      (seen.status = .APPROVED → Reviewed seen db))
    (hP.gives_exec fun env found ws db _ _ hx => ?_)
    (fun found => ?_) fun found => ?_
  · obtain ⟨rfl, rfl⟩ := exec_refundFindUnique hx
    refine ⟨.inl rfl, fun seen hseen => ?_⟩
    have hid : seen.id = id := Schema.id_of_find hseen
    subst hid
    exact ⟨rfl, fun hs => reviewed_of_find hseen (by simp [hs])⟩
  · exact fun db db' hle hlater h seen hseen =>
      ⟨(h seen hseen).1, fun hs => ((h seen hseen).2 hs).later hle hlater⟩
  cases found with
  | none => exact Protocol.gives_throw _
  | some seen =>
      simp only
      split
      · exact Protocol.gives_throw _
      next hstatus =>
      rw [not_not] at hstatus
      have hP' := hP.knowing (A := fun db => ∀ seen', some seen = some seen' → seen'.id = id ∧
          (seen'.status = .APPROVED → Reviewed seen' db))
        (fun _ _ hle hlater h seen' hseen =>
          ⟨(h seen' hseen).1, fun hs => ((h seen' hseen).2 hs).later hle hlater⟩)
      by_cases hid : seen.id = id
      · subst hid
        have hI : ∀ db, I db ∧ (∀ seen', some seen = some seen' → seen'.id = seen.id ∧
            (seen'.status = .APPROVED → Reviewed seen' db)) → Reviewed seen db :=
          fun db hi => (hi.2 seen rfl).2 hstatus
        refine hP'.gives_bind (Protocol.gives_tryCatch (gives_dispatch hP' hop hI) fun error => ?_)
          (fun _ _ _ hle hlater h => h.later hle hlater) fun _ => ?_
        · refine Protocol.ends_bind (hP'.gives_exec fun env r ws db _ hi hx => ?_) fun _ =>
            Protocol.gives_throw _
          obtain ⟨old, -, -, rfl⟩ := exec_refundUpdate hx
          exact ⟨.inr (.failed seen _ hop (hI db hi)), trivial⟩
        · refine (hP'.knowing fun _ _ hle hlater h => h.later hle hlater).gives_exec
            fun env r ws db _ hi hx => ?_
          obtain ⟨old, -, -, rfl⟩ := exec_refundUpdate hx
          exact ⟨.inr (.processed seen hop (hI db hi.1) hi.2), trivial⟩
      · intro trace db _ _ hi
        exact absurd (hi.2 seen rfl).1 hid

theorem ends_refundCall (hP : (journal ops).Client i P) {id : String} {call : RefundCall}
    (hop : ops i = .refund id call) : P.Ends [] (call.run id) := by
  cases call with
  | approve adminId notes => exact ends_review hP hop fun now => ⟨now, rfl⟩
  | deny adminId notes =>
      show P.Ends [] (denyRefund id adminId notes)
      unfold denyRefund
      split
      · exact Protocol.gives_throw _
      next hblank =>
      exact ends_review hP hop fun now => ⟨by simpa using hblank, now, rfl⟩
  | process => exact ends_processRefund hP hop

end RefundsService

/-! ## Disputes -/

namespace DisputesService

variable {seen : Dispute}

/-- The dispute is still there as it was opened. -/
def Known (seen : Dispute) (db : Data) : Prop :=
  ∃ d, schema.find .disputes seen.id db = some d ∧ SameDispute seen d

theorem Known.mono {db db' : Data} (h : Known seen db) (hle : schema.le db db') : Known seen db' := by
  obtain ⟨d, hd, hsame⟩ := h
  obtain ⟨d', hd', hsame'⟩ := dispute_of_le hle hd
  have hid : d.id = seen.id := Schema.id_of_find hd
  exact ⟨d', hd', hsame.trans hsame'⟩

/-- A call that looks its dispute up goes on knowing it. -/
theorem gives_found {id : String} {α : Type} {B : α → Data → Prop}
    {f : Option Dispute → Action α} (hnone : P.Gives [] (f none) B)
    (hsome : ∀ seen, seen.id = id → (P.knowing (Known seen)).Gives [] (f (some seen)) B) :
    P.Gives [] (query (.disputeFindUnique id) >>= f) B := by
  intro trace db hv hs hi
  rw [P.wp_bind]
  refine P.wp_exec_auto (fun _ _ _ => ⟨rfl, fun _ ha => by cases ha⟩) fun env found ws db' hsees hx => ?_
  obtain ⟨rfl, rfl⟩ := exec_disputeFindUnique hx
  refine ⟨P.keeps_refl hsees.inv, ?_⟩
  rw [Protocol.bindPost_ok]
  have hv' : locking.valid (postgres.applyAll [] db') := hsees.valid
  have hi' : I (postgres.applyAll [] db') := hsees.inv
  cases hf : schema.find .disputes id db' with
  | none => exact hnone _ _ hv' .nil hi'
  | some seen =>
      have hid : seen.id = id := Schema.id_of_find hf
      have hknown : Known seen db' := ⟨seen, hid ▸ hf, rfl, rfl, rfl, rfl, rfl⟩
      have hpast : ∀ past : List (Event Stmt Err), ∃ events, past = events ++ [] := fun past =>
        ⟨past, (List.append_nil past).symm⟩
      refine P.wp_of_knowing (fun c db₁ db₂ _ hsees₁ hk => hk.mono hsees₁.le) (hpast _) hknown ?_
      exact Protocol.wp_mono _ (fun _ _ _ hr _ => hr) (hsome seen hid _ _ hv' .nil ⟨hi', hknown⟩)

theorem does_bookWon_registering (dispute : Dispute) :
    P.Does past (bookWon dispute) (registering (.str dispute.userId) TransactionResponse) :=
  Protocol.does_bind_writes (LedgerService.does_account_registering _ _) fun _ =>
    Protocol.does_bind_writes (LedgerService.does_account_registering _ _) fun _ =>
      LedgerService.does_recordTransaction_registering _ _ _ _ _

theorem does_bookLost_registering (dispute : Dispute) (fee : Int) :
    P.Does past (bookLost dispute fee) (registering (.str dispute.userId) TransactionResponse) :=
  Protocol.does_bind_writes (LedgerService.does_account_registering _ _) fun _ =>
    Protocol.does_bind_writes (LedgerService.does_account_registering _ _) fun _ =>
      LedgerService.does_recordTransaction_registering _ _ _ _ _

theorem ends_handleWon (hP : (journal ops).Client i P) (hop : ops i = .dispute seen.id (.outcome .WON))
    (hI : ∀ db, I db → Known seen db) : P.Ends [] (handleWon seen) := by
  have hrestore : ∀ stack, P.Returns stack (restoreCredits seen) := fun stack => by
    refine CreditsService.returns_swallowed (CreditsService.returns_grant (.disputeWon seen.id) hP
      (by simp [hop, Operation.creditSource?]) fun user n db hi huser hn => ?_)
    cases huser
    cases hn
    obtain ⟨d, hd, hsame⟩ := hI db hi
    rw [hop]
    exact ⟨d, hd, hsame.userId, hsame.amount.symm⟩
  rw [handleWon_eq]
  refine hP.gives_transaction (fun past => Protocol.does_bind (Protocol.does_and (does_bookWon P seen)
    (does_bookWon_registering seen)) fun _ => Protocol.does_bind (Protocol.does_of_returns
      (anyStmt_of_only (restoreCredits_only seen)) hrestore) fun _ => does_resolve P seen.id .WON) ?_
  rintro r _ db hv hi hfits ⟨response, ws, _, rfl, ⟨htransfer, hregisters⟩, _, ws', _, rfl, hnothing, now,
    rfl⟩
  obtain rfl : ws' = [] := hnothing
  exact ⟨.outcome seen .WON 0 now _ hop (hI db hi) (transferred_of_rel htransfer) hregisters, trivial⟩

theorem ends_handleLost (hP : (journal ops).Client i P)
    (hop : ops i = .dispute seen.id (.outcome .LOST)) (hI : ∀ db, I db → Known seen db) :
    P.Ends [] (handleLost seen) := by
  have hkey : (some ("dispute_lost_" ++ seen.id ++ "_fee_ledger")).filter (· ≠ "") =
      some (outcomeKey seen.id .LOST) :=
    Option.filter_some_pos (decide_eq_true (outcomeKey_ne seen.id .LOST))
  rw [handleLost_eq]
  refine Protocol.ends_bind ?_ fun fee => ?_
  · unfold BillingConfigService.getInt BillingConfigService.get
    refine Protocol.ends_bind (Protocol.ends_bind (returns_plain hP (by simp [Stmt.writes])) fun found => ?_)
      fun _ => Protocol.ends_pure _
    cases found with
    | none => exact Protocol.ends_pure _
    | some _ => exact Protocol.ends_pure _
  have hbook : ∀ past, P.Does past (bookLost seen fee)
      (transferEffect (outcomeTransfer seen fee .LOST)) := fun past => by
    refine Protocol.does_bind (LedgerService.does_getOrCreateSystemAccount P _) fun a =>
      Protocol.does_bind (LedgerService.does_getOrCreateAssetAccount P _) fun b => ?_
    have hrecord : P.Does past _ _ := LedgerService.does_recordTransaction P (.str seen.userId)
      ("Chargeback fee for lost dispute " ++ seen.id) (lostEntries a b fee) .COMPLETED
      [("disputeId", .str seen.id), ("outcome", .str "LOST"), ("feeType", .str "chargeback"),
        ("feeCents", .int fee), ("type", .str "chargeback_fee")]
      (some ("dispute_lost_" ++ seen.id ++ "_fee_ledger"))
    rw [hkey] at hrecord
    exact hrecord
  refine hP.gives_transaction (fun past => Protocol.does_bind (Protocol.does_and (hbook past)
    (does_bookLost_registering seen fee)) fun _ => does_resolve P seen.id .LOST) ?_
  rintro r _ db hv hi hfits ⟨response, ws, _, rfl, ⟨htransfer, hregisters⟩, now, rfl⟩
  exact ⟨.outcome seen .LOST fee now _ hop (hI db hi) (transferred_of_rel htransfer) hregisters, trivial⟩

theorem ends_disputeCall (hP : (journal ops).Client i P) {id : String} {call : DisputeCall}
    (hop : ops i = .dispute id call) : P.Ends [] (call.run id) := by
  cases call with
  | evidence submittedBy evidenceType content metadata =>
      refine Protocol.ends_bind (gives_found (Protocol.gives_throw _) fun seen hid => ?_) fun _ =>
        Protocol.ends_pure _
      have hP' := hP.knowing (A := Known seen) (.of_le fun _ _ hle h => h.mono hle)
      have hlasting : (journal ops).Lasting (Evidenced id) := .of_le fun _ _ hle h => h.mono hle
      refine hP'.gives_bind (C := fun _ => Evidenced id) (hP'.gives_exec fun env e ws db hv _ hx => ?_)
        (fun _ => hlasting) fun _ => ?_
      · have hfits := locking.fitsAll_of_exec hv hx
        obtain ⟨rfl, he⟩ := exec_disputeEvidenceCreate_row hx
        refine ⟨.inr (.submitted e ?_), e, ?_, by rw [he]⟩
        · rw [hop, he]
        · refine (locking.valid_applyAll hfits hv).find_of_mem ?_
          rw [applyAll_single, Schema.apply_insert_self]
          exact List.mem_append_right _ (.head _)
      split
      · refine Protocol.ends_bind ((hP'.knowing hlasting).gives_exec fun env r ws db _ hi hx => ?_) fun _ =>
          Protocol.ends_pure _
        obtain ⟨old, -, -, rfl⟩ := exec_disputeUpdate hx
        exact ⟨.inr (.evidence id _ hop hi.2), trivial⟩
      · exact Protocol.ends_pure _
  | outcome o =>
      refine Protocol.ends_bind (gives_found (Protocol.gives_throw _) fun seen hid => ?_) fun _ =>
        Protocol.ends_pure _
      subst hid
      have hP' := hP.knowing (A := Known seen) (.of_le fun _ _ hle h => h.mono hle)
      simp only
      split
      · exact Protocol.gives_throw _
      · cases o with
        | WON => exact ends_handleWon hP' hop fun _ hi => hi.2
        | LOST => exact ends_handleLost hP' hop fun _ hi => hi.2

end DisputesService

/-! ## Operations -/

/-- Every operation keeps to its commits. -/
theorem ends_operation (ops : ι → Operation) (i : ι) :
    ((journal ops).protocol i).Ends [] (ops i).run := by
  have hP : (journal ops).Client i ((journal ops).protocol i) := Journal.client_protocol
  cases hop : ops i with
  | card config req =>
      exact Protocol.gives_of_returns (Protocol.returns_bind
        (AuthorizeNetWebhookController.returns_handleWebhook
          (AuthorizeNetWebhookController.returns_recordCard hP hop)) fun _ => Protocol.returns_pure _)
  | chain setting event =>
      exact Protocol.gives_of_returns (Protocol.returns_bind
        (SolanaConfirmationController.returns_handleConfirmation fun data hdata =>
          SolanaConfirmationController.returns_recordChain hP hop hdata) fun _ => Protocol.returns_pure _)
  | createRefund userId data =>
      exact Protocol.ends_bind (RefundsService.ends_createRefundRequest hP hop) fun _ => Protocol.ends_pure _
  | refund id call =>
      exact Protocol.ends_bind (RefundsService.ends_refundCall hP hop) fun _ => Protocol.ends_pure _
  | dispute id call => exact DisputesService.ends_disputeCall hP hop
  | cancelAtPeriodEnd userId =>
      refine Protocol.ends_bind (Protocol.ends_bind (returns_plain hP (by simp [Stmt.writes])) fun found => ?_)
        fun _ => Protocol.ends_pure _
      cases found with
      | none => exact Protocol.gives_throw _
      | some sub =>
          simp only
          split
          · exact Protocol.gives_throw _
          · exact returns_plain hP (by simp [Stmt.writes, plainTables])
  | cancelImmediately userId =>
      refine Protocol.ends_bind (Protocol.ends_bind (returns_plain hP (by simp [Stmt.writes])) fun found => ?_)
        fun _ => Protocol.ends_pure _
      cases found with
      | none => exact Protocol.ends_pure _
      | some sub =>
          exact Protocol.ends_bind (returns_plain hP (by simp [Stmt.writes, plainTables])) fun _ =>
            Protocol.ends_pure _
  | reactivate userId =>
      refine Protocol.ends_bind (Protocol.ends_bind (returns_plain hP (by simp [Stmt.writes])) fun found => ?_)
        fun _ => Protocol.ends_pure _
      cases found with
      | none => exact Protocol.gives_throw _
      | some sub =>
          simp only
          split
          · exact Protocol.gives_throw _
          split
          · exact Protocol.gives_throw _
          · exact returns_plain hP (by simp [Stmt.writes, plainTables])

section Runs

variable [DecidableEq ι] {db : Database} {s s' : Sys Stmt Data RowWrite RowLock Err Unit ι}

/-- A step of a run commits nothing, or a commit of its operation. -/
theorem commit_of_step (h : Runs postgres AnyStep (operations db ops) s) (hstep : Step postgres s i s') :
    (journal ops).Made i s.db s'.db :=
  Journal.commit_of_step db.valid (ends_operation ops) h hstep

/-- A run keeps the database valid, and what is fixed of its rows. -/
theorem valid_of_operations (h : Runs postgres AnyStep (operations db ops) s) :
    schema.Valid s.db ∧ schema.le db.rows s.db := by
  obtain ⟨hok, hle⟩ := Discipline.SysOk.runs (Discipline.SysOk.start (D := locking) db.valid _) h
  exact ⟨hok.valid, hle⟩

/-- What every commit keeps, every run of operations keeps. -/
theorem inv_of_commits {K : Data → Prop} (hk : K db.rows)
    (hcommit : ∀ i db ws, schema.Valid db → K db → locking.fitsAll ws db → Commit (ops i) db ws →
      K (postgres.applyAll ws db)) (h : Runs postgres AnyStep (operations db ops) s) : K s.db :=
  Journal.inv_of_runs db.valid hk (ends_operation ops) hcommit h

end Runs

end PaymentBilling
