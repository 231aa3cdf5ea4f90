import PaymentBilling.Safety.DisputeBooks
import PaymentBilling.Safety.Reversals
import PaymentBilling.Spec.Linked
import PaymentBilling.Spec.Operations
import PaymentBilling.Spec.Personal
import PaymentBilling.Transact.Replay

/-!
# Safety.Isolation

Any operations at once: the users for whom a step is not made.

Rows are found by identifiers and keys that all users share, so it takes an
invariant to see that nobody writes what is another's: every dispute points to
the reversal of its charge (`Linked`).
-/

namespace PaymentBilling

open Relational Transact

/-! ## The protocol -/

/-- A client leaves everybody untouched for whom its step is not performed. -/
def isolated (performed : String → Data → Prop) : Protocol locking Linked where
  env _ _ _ := True
  guar _ db db' := ∀ user, ¬performed user db → Untouched user db db'
  env_refl _ _ := trivial
  env_trans _ _ := trivial
  guar_refl _ db user _ := .refl user db

/-- Steps that are made for the users in `U` are allowed. -/
structure Admits {I : Data → Prop} (P : Protocol locking I) (U : String → Prop) : Prop where
  linked : ∀ db, I db → Linked db
  keeps : ∀ c db db', locking.le db db' → I db → Serves U db db' → P.Keeps c db db'

variable {U : String → Prop} {performed : String → Data → Prop}

theorem admits_isolated (h : ∀ user db, U user → performed user db) : Admits (isolated performed) U where
  linked _ hi := hi
  keeps _ _ _ _ _ hs := ⟨hs.linked, fun user hnot => hs.untouched user fun hu => hnot (h user _ hu)⟩

/-- The same for a client that knows of the row that it works on. -/
theorem admits_knowing {A : Data → Prop} (hA : ∀ db db', locking.le db db' → A db → A db')
    (h : ∀ user db, A db → U user → performed user db) : Admits ((isolated performed).knowing A) U where
  linked _ hi := hi.1
  keeps _ db db' hle hi hs := ⟨⟨hs.linked, hA db db' hle hi.2⟩,
    fun user hnot => hs.untouched user fun hu => hnot (h user _ hi.2 hu)⟩

namespace Admits

section Rules

variable {I : Data → Prop} {P : Protocol locking I} {stack : List (Tx RowWrite RowLock)} {α : Type}

theorem permits (hP : Admits P U) : Permits P U := fun c _ ws hv hi hfits h =>
  hP.keeps c _ _ (locking.le_applyAll ws _) hi (serves_personal h hv hfits (hP.linked _ hi))

/-- A statement that writes for the users in `U`. -/
theorem returns_exec (hP : Admits P U) {s : Stmt α}
    (h : ∀ env a ws db, schema.Valid db → I db → postgres.exec s env db = .ok (a, ws) →
      Personal U ws db) : P.Returns [] (query s) :=
  Protocol.returns_exec fun _ env a ws db hv hi hx =>
    hP.permits _ db ws hv hi (locking.fitsAll_of_exec hv hx) (h env a ws db hv hi hx)

/-- A statement that writes a table of nobody's, or none. -/
theorem returns_query (hP : Admits P U) {s : Stmt α}
    (h : ∀ t, s.writes = some t → t ∉ .disputes :: ledgerTables ++ ownedTables) :
    P.Returns [] (query s) :=
  hP.returns_exec fun _ _ _ _ _ _ hx => personal_of_table fun w hw => h _ (table_of_exec hx w hw)

/-- A transaction whose commit is for the users in `U`. -/
theorem returns_transaction (hP : Admits P U) {body : Action α} {X : Effect locking α}
    (hbody : ∀ past, P.Does past body X)
    (h : ∀ a ws db, schema.Valid db → I db → locking.fitsAll ws db → X.rel a ws db →
      Serves U db (postgres.applyAll ws db)) : P.Returns stack (transaction body) :=
  Protocol.returns_transaction hbody fun a ws c db hv hi hfits hx =>
    hP.keeps c _ _ (locking.le_applyAll ws db) hi (h a ws db hv hi hfits hx)

/-! ## Gateway events -/

theorem returns_takeBack (hP : Admits P U) {data : AuthorizeNetData}
    (hU : ∀ user, data.userId = .str user → U user) (d : Option Dispute) :
    P.Returns stack (AuthorizeNetWebhookController.takeBack data d) := by
  cases d with
  | none => exact Protocol.returns_pure ()
  | some d => exact returns_logged (CreditsService.returns_deductCredits hP.permits hU)

/-- The transaction of an event writes for the user of the event. -/
theorem returns_recordEvent (hP : Admits P U) {event : AuthorizeNetEvent}
    (hU : ∀ data user, event.data = some data → data.userId = .str user → U user) :
    P.Returns stack (AuthorizeNetWebhookController.recordAndApply event) := by
  have hrecord : ∀ past, P.Does past
      (query (.processedWebhookCreate event.eventId "authorize_net" event.type))
      (personalEffect U ProcessedWebhook) := fun past =>
    does_query_personal (by simp [Stmt.writes, ledgerTables, ownedTables])
  have hpersonal : ∀ (a : Unit) ws db, schema.Valid db → I db → locking.fitsAll ws db →
      (personalEffect U Unit).rel a ws db → Serves U db (postgres.applyAll ws db) :=
    fun _ ws db hv hi hfits h => serves_personal h hv hfits (hP.linked db hi)
  by_cases htype : EventType.ofJs event.type = .chargebackReceived
  · cases hdata : event.data with
    | none =>
        have hthrow : AuthorizeNetWebhookController.applyEvent event.type event.data =
            throw (.typeError "Cannot read properties of undefined") := by
          rw [AuthorizeNetWebhookController.applyEvent, htype, hdata]
        refine hP.returns_transaction (fun past => does_bind_personal (hrecord past) fun _ => ?_) hpersonal
        rw [hthrow]
        exact Protocol.does_throw _
    | some data =>
        have hu := fun user => hU data user hdata
        rw [AuthorizeNetWebhookController.recordAndApply_eq (EventType.eq_of_chargeback htype) hdata]
        refine hP.returns_transaction (fun past => Protocol.does_bind
          (AuthorizeNetWebhookController.does_delivery P event data) fun d =>
            Protocol.does_of_returns (anyStmt_of_only (AuthorizeNetWebhookController.takeBack_only data d))
              fun stack => hP.returns_takeBack hu d) ?_
        rintro _ _ db hv hi hfits ⟨d, ws, ws', rfl, hdelivery, hnothing⟩
        obtain rfl : ws' = [] := hnothing
        rw [List.append_nil] at hfits ⊢
        exact delivery_serves hdelivery hv hfits (hP.linked db hi) hu
  · exact hP.returns_transaction (fun past => does_bind_personal (hrecord past) fun _ =>
      AuthorizeNetWebhookController.does_applyEvent_personal hP.permits hU htype) hpersonal

theorem returns_handleWebhook (hP : Admits P U) {config : AuthorizeNetConfig}
    {req : AuthorizeNetRequest}
    (hU : ∀ data user, req.body.data = some data → data.userId = .str user → U user) :
    P.Returns [] (AuthorizeNetWebhookController.handleWebhook config req) :=
  AuthorizeNetWebhookController.returns_handleWebhook (hP.returns_recordEvent hU)

/-- A confirmation writes for its user. -/
theorem returns_handleConfirmation (hP : Admits P U) {setting : Option String} {event : SolanaEvent}
    (hU : ∀ data user, event.data = some data → data.userId = .str user → U user) :
    P.Returns [] (SolanaConfirmationController.handleConfirmation setting event) := by
  refine SolanaConfirmationController.returns_handleConfirmation fun data hdata => ?_
  refine hP.returns_transaction (fun past => does_bind_personal
    (does_query_personal (by simp [Stmt.writes, ledgerTables, ownedTables])) fun _ =>
      does_applyConfirmation_personal hP.permits fun user => hU data user hdata) ?_
  exact fun _ ws db hv hi hfits h => serves_personal h hv hfits (hP.linked db hi)

/-! ## Requests and disputes -/

/-- The update of a request of one of the users in `U`. -/
theorem returns_refundUpdate (hP : Admits P U) {seen : RefundRequest} {data : RefundUpdate}
    (hseen : ∀ db, I db → Stays .refundRequests seen db) (hU : U seen.userId) :
    P.Returns [] (query (.refundUpdate seen.id data)) := by
  refine hP.returns_exec fun env r ws db hv hi hx => ?_
  obtain ⟨old, -, -, rfl⟩ := exec_refundUpdate hx
  exact refundPatch_personal (hseen db hi) hU

theorem returns_createRefundRequest (hP : Admits P U) {userId : String}
    {data : CreateRefundRequestDto} (hU : U userId) :
    P.Returns [] (RefundsService.createRefundRequest userId data) := by
  unfold RefundsService.createRefundRequest
  split
  · exact Protocol.returns_throw _
  split
  · exact Protocol.returns_throw _
  refine Protocol.returns_bind (hP.returns_query (by simp [Stmt.writes])) fun subscription => ?_
  split
  · exact Protocol.returns_throw _
  refine Protocol.returns_bind ?_ fun resolvedTxnId => ?_
  · unfold RefundsService.resolveTxnId
    split
    · refine Protocol.returns_bind (hP.returns_query (by simp [Stmt.writes])) fun latest => ?_
      cases latest with
      | none => exact Protocol.returns_pure _
      | some _ => exact Protocol.returns_pure _
    · exact Protocol.returns_pure _
  · refine hP.returns_exec fun env r ws db _ _ hx => ?_
    obtain ⟨n, -, -, rfl, hr⟩ := exec_refundCreate hx
    refine List.forall_mem_singleton.mpr ⟨fun _ => ⟨userId, ?_, hU⟩, ?_⟩
    · show some r.userId = some userId
      rw [hr]
    · show Table.refundRequests ∉ _
      decide

theorem returns_recordRefund (hP : Admits P U) {seen : RefundRequest} {result : RefundResult}
    (hseen : ∀ db, I db → Stays .refundRequests seen db) (hU : U seen.userId) :
    P.Returns stack (RefundsService.recordRefund seen result) := by
  have hu : ∀ user, Js.str seen.userId = .str user → U user := fun user he => Js.str.inj he ▸ hU
  refine hP.returns_transaction (fun past => Protocol.does_bind
    (RefundsService.does_recordRows seen result) fun _ => Protocol.does_of_returns
      (anyStmt_of_only (RefundsService.deductRefunded_only seen)) fun stack =>
        returns_logged (CreditsService.returns_deductCredits hP.permits hu)) ?_
  rintro _ _ db hv hi hfits ⟨_, ws, ws', rfl, ⟨response, ws₁, ws₂, rfl, htransfer, hpaid⟩, hnothing⟩
  obtain rfl : ws' = [] := hnothing
  obtain rfl : ws₂ = [.update .refundRequests seen.id (RefundPatch.paymentRefundId
    result.gatewayRefundId)] := hpaid
  rw [List.append_nil] at hfits ⊢
  rw [locking.fitsAll_append] at hfits
  rw [postgres.applyAll_append]
  have hserved : Serves U db (postgres.applyAll ws₁ db) := by
    refine (transferred_of_rel htransfer).serves hv hfits.1 (fun a b e he => ?_)
      (fun user huser _ => hu user huser) (fun _ _ => nofun) (hP.linked db hi)
    simp only [RefundsService.refundTransfer, RefundsService.refundEntries, List.mem_cons,
      List.not_mem_nil, or_false] at he
    rcases he with rfl | rfl
    · exact .inr rfl
    · exact .inl rfl
  refine hserved.trans (serves_personal ?_ (locking.valid_applyAll hfits.1 hv) hfits.2 hserved.linked)
  exact refundPatch_personal ((hseen db hi).mono (locking.le_applyAll ws₁ db)) hU

/-- Moving the money of a request. -/
theorem returns_dispatch (hP : Admits P U) {seen : RefundRequest}
    (hseen : ∀ db, I db → Stays .refundRequests seen db) (hU : U seen.userId) :
    P.Returns [] (RefundsService.dispatch seen) := by
  unfold RefundsService.dispatch
  split
  · refine Protocol.returns_bind (CreditsService.returns_grantCredits hP.permits fun user he => ?_)
      fun _ => Protocol.returns_pure ()
    exact Js.str.inj he ▸ hU
  · unfold RefundsService.processPaymentRefund
    split
    · exact Protocol.returns_pure ()
    split
    · exact Protocol.returns_throw _
    split
    · exact Protocol.returns_throw _
    refine Protocol.returns_bind (Protocol.returns_bind
      (hP.returns_query (by simp [Stmt.writes, ledgerTables, ownedTables])) fun answer => ?_) fun result =>
        hP.returns_recordRefund hseen hU
    cases answer with
    | ok _ => exact Protocol.returns_pure _
    | error _ => exact Protocol.returns_throw _

/-- The update of a dispute of one of the users in `U`. -/
theorem returns_disputeUpdate (hP : Admits P U) {seen : Dispute} {data : DisputeUpdate}
    (hseen : ∀ db, I db → Stays .disputes seen db) (hU : U seen.userId)
    (hkeeps : ∀ now, KeepsReversal (data.patch now)) :
    P.Returns [] (query (.disputeUpdate seen.id data)) := by
  refine Protocol.returns_exec fun trace env r ws db hv hi hx => ?_
  have hfits := locking.fitsAll_of_exec hv hx
  obtain ⟨old, -, -, rfl⟩ := exec_disputeUpdate hx
  exact hP.keeps _ _ _ (locking.le_applyAll _ db) hi
    (disputePatch_serves hv hfits (hkeeps env.now) (hseen db hi) hU (hP.linked db hi))

theorem returns_handleWon (hP : Admits P U) {seen : Dispute}
    (hseen : ∀ db, I db → Stays .disputes seen db) (hU : U seen.userId) :
    P.Returns stack (DisputesService.handleWon seen) := by
  have hu : ∀ user, Js.str seen.userId = .str user → U user := fun user he => Js.str.inj he ▸ hU
  rw [DisputesService.handleWon_eq]
  refine hP.returns_transaction (fun past => Protocol.does_bind (DisputesService.does_bookWon P seen)
    fun _ => Protocol.does_bind (Protocol.does_of_returns
      (anyStmt_of_only (DisputesService.restoreCredits_only seen)) fun stack =>
        returns_logged (CreditsService.returns_grantCredits hP.permits hu)) fun _ =>
      DisputesService.does_resolve P seen.id .WON) ?_
  rintro r _ db hv hi hfits ⟨response, ws, _, rfl, htransfer, _, ws', _, rfl, hnothing, now, rfl⟩
  obtain rfl : ws' = [] := hnothing
  exact outcome_serves (DisputesService.outcome_entries seen 0 .WON) hv hfits
    (keepsReversal_resolve .WON now) (transferred_of_rel htransfer) (fun user huser _ => hu user huser)
    (fun _ _ => nofun) (hseen db hi) hU (hP.linked db hi)

theorem returns_handleLost (hP : Admits P U) {seen : Dispute}
    (hseen : ∀ db, I db → Stays .disputes seen db) (hU : U seen.userId) :
    P.Returns [] (DisputesService.handleLost seen) := by
  have hu : ∀ user, Js.str seen.userId = .str user → U user := fun user he => Js.str.inj he ▸ hU
  unfold DisputesService.handleLost BillingConfigService.getInt BillingConfigService.get
  refine Protocol.returns_bind (Protocol.returns_bind (Protocol.returns_bind
    (hP.returns_query nofun) fun found => ?_) fun raw => Protocol.returns_pure _) fun fee => ?_
  · cases found with
    | none => exact Protocol.returns_pure _
    | some _ => exact Protocol.returns_pure _
  refine hP.returns_transaction (X := (transferEffect (DisputesService.outcomeTransfer seen fee .LOST)).bind
    fun _ => DisputesService.resolveEffect seen.id .LOST) (fun past => does_transfer
      (x := DisputesService.outcomeTransfer seen fee .LOST)
      (LedgerService.does_getOrCreateSystemAccount P _) (LedgerService.does_getOrCreateAssetAccount P _)
      (Option.filter_some_pos (decide_eq_true (DisputesService.outcomeKey_ne seen.id .LOST)))
      fun _ => DisputesService.does_resolve P _ _) ?_
  rintro r _ db hv hi hfits ⟨response, ws, _, rfl, htransfer, now, rfl⟩
  exact outcome_serves (DisputesService.outcome_entries seen fee .LOST) hv hfits
    (keepsReversal_resolve .LOST now) (transferred_of_rel htransfer) (fun _ _ => nofun)
    (fun user huser _ => hu user huser) (hseen db hi) hU (hP.linked db hi)

end Rules

end Admits

/-! ## Operations -/

/-- A call that finds the row it is about, and then knows that it stays there. -/
theorem returns_found {t : Table} {id : String} {s : Stmt (Option (Row t))} {β : Type}
    {f : Option (Row t) → Action β}
    (hread : ∀ env r ws db, postgres.exec s env db = .ok (r, ws) → ws = [] ∧ r = schema.find t id db)
    (hnone : (isolated performed).Returns [] (f none))
    (hsome : ∀ row, schema.id row = id →
      ((isolated performed).knowing (Stays t row)).Returns [] (f (some row))) :
    (isolated performed).Returns [] (query s >>= f) := by
  refine Protocol.returns_read (fun env r ws db hx => (hread env r ws db hx).1)
    fun env r db trace hv hx => ?_
  obtain ⟨-, rfl⟩ := hread env r [] db hx
  cases hf : schema.find t id db with
  | none => exact hnone trace db
  | some row =>
      have hid : schema.id row = id := Schema.id_of_find hf
      refine Protocol.wp_of_returns_knowing (A := Stays t row) (fun db db' hle h => h.mono hle)
        ⟨row, ?_, rfl⟩ (hsome row hid)
      rw [hid]
      exact hf

/-- A call on a request that is found. -/
theorem admits_request {id : String} {seen : RefundRequest} (hid : seen.id = id) :
    Admits ((isolated fun user db => ∃ r, schema.find .refundRequests id db = some r ∧ r.userId = user).knowing
      (Stays .refundRequests seen)) (· = seen.userId) := by
  refine admits_knowing (fun db db' hle h => h.mono hle) ?_
  rintro _ db ⟨r, hr, hfix⟩ rfl
  exact ⟨r, hid ▸ hr, (SameRequest.of_fixed hfix).userId⟩

/-- A call on a dispute that is found. -/
theorem admits_dispute {id : String} {seen : Dispute} (hid : seen.id = id) :
    Admits ((isolated fun user db => ∃ d, schema.find .disputes id db = some d ∧ d.userId = user).knowing
      (Stays .disputes seen)) (· = seen.userId) := by
  refine admits_knowing (fun db db' hle h => h.mono hle) ?_
  rintro _ db ⟨d, hd, hfix⟩ rfl
  exact ⟨d, hid ▸ hd, (SameDispute.of_fixed hfix).userId⟩

theorem returns_refundCall (id : String) (call : RefundCall) :
    (isolated fun user db => ∃ r, schema.find .refundRequests id db = some r ∧ r.userId = user).Returns []
      (call.run id) := by
  have hreview : ∀ verb data, (isolated fun user db =>
      ∃ r, schema.find .refundRequests id db = some r ∧ r.userId = user).Returns []
      (RefundsService.findPending id verb >>= fun _ => query (.refundUpdate id data)) := by
    intro verb data
    rw [RefundsService.findPending, Prog.bind_assoc]
    refine returns_found (t := .refundRequests) (fun env r ws db hx => exec_refundFindUnique hx) ?_
      fun seen hid => ?_
    · exact Protocol.returns_throw _
    refine Protocol.returns_bind ?_ fun _ => ?_
    · simp only
      split
      · exact Protocol.returns_throw _
      · exact Protocol.returns_pure _
    · have hid : seen.id = id := hid
      rw [← hid]
      exact (admits_request rfl).returns_refundUpdate (fun db hi => hi.2) rfl
  cases call with
  | approve adminId notes => exact hreview _ _
  | deny adminId notes =>
      unfold RefundCall.run RefundsService.denyRefund
      simp only
      split
      · exact Protocol.returns_throw _
      · exact hreview _ _
  | process =>
      unfold RefundCall.run RefundsService.processRefund
      refine returns_found (t := .refundRequests) (fun env r ws db hx => exec_refundFindUnique hx) ?_
        fun seen hid => ?_
      · exact Protocol.returns_throw _
      have hid : seen.id = id := hid
      subst hid
      have hP := admits_request (rfl : seen.id = seen.id)
      simp only
      split
      · exact Protocol.returns_throw _
      refine Protocol.returns_bind (Protocol.returns_tryCatch
        (hP.returns_dispatch (fun db hi => hi.2) rfl) fun error => ?_) fun _ => ?_
      · exact Protocol.returns_bind (hP.returns_refundUpdate (fun db hi => hi.2) rfl) fun _ =>
          Protocol.returns_throw _
      · exact hP.returns_refundUpdate (fun db hi => hi.2) rfl

theorem returns_disputeCall (id : String) (call : DisputeCall) :
    (isolated fun user db => ∃ d, schema.find .disputes id db = some d ∧ d.userId = user).Returns []
      (call.run id) := by
  cases call with
  | evidence submittedBy evidenceType content metadata =>
      refine Protocol.returns_bind ?_ fun _ => Protocol.returns_pure _
      unfold DisputesService.attachEvidence
      refine returns_found (t := .disputes) (fun env r ws db hx => exec_disputeFindUnique hx) ?_
        fun seen hid => ?_
      · exact Protocol.returns_throw _
      have hid : seen.id = id := hid
      subst hid
      have hP := admits_dispute (rfl : seen.id = seen.id)
      refine Protocol.returns_bind (hP.returns_query (by simp [Stmt.writes, ledgerTables, ownedTables]))
        fun evidence => ?_
      split
      · exact Protocol.returns_bind (hP.returns_disputeUpdate (fun db hi => hi.2) rfl
          fun _ => keepsReversal_evidenceSubmitted) fun _ => Protocol.returns_pure _
      · exact Protocol.returns_pure _
  | outcome o =>
      refine Protocol.returns_bind ?_ fun _ => Protocol.returns_pure _
      unfold DisputesService.setOutcome
      refine returns_found (t := .disputes) (fun env r ws db hx => exec_disputeFindUnique hx) ?_
        fun seen hid => ?_
      · exact Protocol.returns_throw _
      have hid : seen.id = id := hid
      subst hid
      have hP := admits_dispute (rfl : seen.id = seen.id)
      simp only
      split
      · exact Protocol.returns_throw _
      · cases o with
        | WON => exact hP.returns_handleWon (fun db hi => hi.2) rfl
        | LOST => exact hP.returns_handleLost (fun db hi => hi.2) rfl

/-- The statement that writes the subscription of the user. -/
theorem Admits.returns_subscriptionWrite {I : Data → Prop} {P : Protocol locking I} (hP : Admits P U)
    {userId : Js} (hU : ∀ user, userId = .str user → U user) {s : Stmt Subscription}
    {p : Env → SubscriptionPatch}
    (hs : ∀ env r ws db, postgres.exec s env db = .ok (r, ws) → ∃ user old, userId = .str user ∧
      schema.findBy .subscriptions (.userId user) db = some old ∧
        ws = [.update .subscriptions old.id (p env)]) :
    P.Returns [] (query s) := by
  refine hP.returns_exec fun env r ws db hv hi hx => ?_
  obtain ⟨user, old, huser, hf, rfl⟩ := hs env r ws db hx
  exact personal_subscription hv hf (hU user huser)

/-- Every operation writes for the users that it is performed for. -/
theorem returns_operation (op : Operation) :
    (isolated fun user db => op.PerformedFor user db).Returns [] op.run := by
  have hnamed : ∀ {userId : Js}, Admits (isolated fun user _ => userId = .str user)
      (fun user => userId = .str user) := admits_isolated fun _ _ h => h
  cases op with
  | card config req =>
      refine Protocol.returns_bind (Admits.returns_handleWebhook (U := fun user =>
        ∃ data, req.body.data = some data ∧ data.userId = .str user)
        (admits_isolated fun _ _ h => h) fun data user hdata huser => ⟨data, hdata, huser⟩)
        fun _ => Protocol.returns_pure _
  | chain setting event =>
      refine Protocol.returns_bind (Admits.returns_handleConfirmation (U := fun user =>
        ∃ data, event.data = some data ∧ data.userId = .str user)
        (admits_isolated fun _ _ h => h) fun data user hdata huser => ⟨data, hdata, huser⟩)
        fun _ => Protocol.returns_pure _
  | createRefund userId data =>
      exact Protocol.returns_bind (Admits.returns_createRefundRequest (U := fun user => userId = user)
        (admits_isolated fun _ _ h => h) rfl) fun _ => Protocol.returns_pure _
  | refund id call =>
      exact Protocol.returns_bind (returns_refundCall id call) fun _ => Protocol.returns_pure _
  | dispute id call => exact returns_disputeCall id call
  | cancelAtPeriodEnd userId =>
      refine Protocol.returns_bind (Protocol.returns_bind (hnamed.returns_query nofun) fun found => ?_)
        fun _ => Protocol.returns_pure _
      cases found with
      | none => exact Protocol.returns_throw _
      | some sub =>
          simp only
          split
          · exact Protocol.returns_throw _
          · exact hnamed.returns_subscriptionWrite (fun _ h => h) fun env r ws db hx =>
              exec_subscriptionCancelAtPeriodEnd hx
  | cancelImmediately userId =>
      refine Protocol.returns_bind (Protocol.returns_bind (hnamed.returns_query nofun) fun found => ?_)
        fun _ => Protocol.returns_pure _
      cases found with
      | none => exact Protocol.returns_pure _
      | some sub =>
          exact Protocol.returns_bind (hnamed.returns_subscriptionWrite (fun _ h => h)
            fun env r ws db hx => exec_subscriptionCancel hx) fun _ => Protocol.returns_pure _
  | reactivate userId =>
      refine Protocol.returns_bind (Protocol.returns_bind (hnamed.returns_query nofun) fun found => ?_)
        fun _ => Protocol.returns_pure _
      cases found with
      | none => exact Protocol.returns_throw _
      | some sub =>
          simp only
          split
          · exact Protocol.returns_throw _
          split
          · exact Protocol.returns_throw _
          · exact hnamed.returns_subscriptionWrite (fun _ h => h) fun env r ws db hx =>
              exec_subscriptionCancelAtPeriodEnd hx

/-! ## Runs -/

/-- The operations together. -/
def isolatedOperations {ι : Type} (ops : ι → Operation) : Contract locking Linked ι where
  proto i := isolated fun user db => (ops i).PerformedFor user db
  apart _ _ _ _ := True
  apart_symm _ := trivial
  compat _ _ _ _ _ _ _ := trivial

/-- Whatever operations run at once, and however they are interleaved: every step
of one of them leaves all users untouched that it is not performed for, and the
disputes stay linked.  A store without disputes is linked. -/
theorem operations_isolated {ι : Type} [DecidableEq ι] (db : Database) (ops : ι → Operation)
    (hlinked : Linked db.rows) {s s' : Sys Stmt Data RowWrite RowLock Err Unit ι} {i : ι}
    (hruns : Runs postgres AnyStep (operations db ops) s) (hstep : Step postgres s i s') :
    Linked s'.db ∧ ∀ user, ¬(ops i).PerformedFor user s.db → Untouched user s.db s'.db := by
  have hsafe : (isolatedOperations ops).Safe (fun _ _ _ _ => True) (operations db ops) := by
    refine .start db.valid hlinked (fun _ _ _ => trivial) fun j => ?_
    exact Protocol.wp_mono _ (fun _ _ _ _ => trivial) (returns_operation (ops j) [] db.rows)
  have hclean : Runs postgres (isolatedOperations ops).Clean (operations db ops) s :=
    hruns.mono fun _ _ _ _ _ _ _ _ => trivial
  obtain ⟨hreached, -⟩ := hsafe.runs (T := fun _ _ => True) (fun _ _ _ _ _ _ _ _ _ => trivial)
    (fun _ => trivial) (fun _ _ => trivial) (fun _ _ _ _ => trivial) hclean
  exact (hreached.allowed hstep).1

/-- The system user has disputed the charge, and it is reversed. -/
def disputedBySystem : Database :=
  .ofWrites [.insert .users ⟨"user"⟩, .insert .users ⟨LedgerService.SYSTEM_USER_ID⟩,
    .insert .ledgerTransactions ⟨"txn_1", "txn", some LedgerService.SYSTEM_USER_ID, "reversal",
      .COMPLETED, [], some (reversalKey "charge_1")⟩,
    .insert .disputes ⟨"dispute_1", LedgerService.SYSTEM_USER_ID, .AUTHORIZE_NET,
      gatewayDisputeKey "charge_1", "charge_1", 100, none, .OPEN, none, some "txn_1"⟩] (by decide)

theorem disputedBySystem_linked : Linked disputedBySystem.rows := by
  intro d hd
  obtain rfl := List.mem_singleton.mp hd
  exact ⟨"charge_1", rfl, _, .head _, rfl, rfl⟩

/-- The commit records the event and nothing else. -/
def recordsOnly (s : Sys Stmt Data RowWrite RowLock Err Unit (Fin 1) ×
    Sys Stmt Data RowWrite RowLock Err Unit (Fin 1)) : Bool :=
  (schema.find .processedWebhooks "event_1" s.1.db).isNone &&
    (schema.find .processedWebhooks "event_1" s.2.db).isSome &&
    (s.2.db .ledgerAccounts).isEmpty

/-- Another user's chargeback of that charge changes nothing of the dispute. -/
theorem foreignChargeback_isolated :
    ∃ s s', Runs postgres AnyStep
        (operations disputedBySystem fun _ : Fin 1 => .card constantHmac (chargebackUnder "event_1")) s ∧
      Step postgres s 0 s' ∧ (schema.find .processedWebhooks "event_1" s'.db).isSome = true ∧
      Untouched LedgerService.SYSTEM_USER_ID s.db s'.db := by
  have hplay : (replayStep postgres (List.replicate 4 (0, .go (.ordinary "a"))) 0 (.go (.ordinary "a"))
      (operations disputedBySystem fun _ : Fin 1 =>
        .card constantHmac (chargebackUnder "event_1"))).any recordsOnly = true := by
    decide +kernel
  obtain ⟨s, s', h, hs, hgoal⟩ := exists_step_of_replay hplay
  simp only [recordsOnly, Bool.and_eq_true] at hgoal
  refine ⟨s, s', h, hs, hgoal.1.2,
    (operations_isolated disputedBySystem _ disputedBySystem_linked h hs).2 _ ?_⟩
  rintro ⟨data, hdata, huser⟩
  cases hdata
  exact absurd (Js.str.inj huser) (by decide)

end PaymentBilling
