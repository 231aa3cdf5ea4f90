import PaymentBilling.Safety.CreditsAndLedger
import PaymentBilling.Spec.Healthy

/-!
# Safety.ChargeRecords

The record of a settled charge, which later refunds are filled in from.

It is written at the end of each handler, after everything that can stop it: a
context that is not understood, credits that do not fit, a subscription that
cannot be written.  Once it is written, nothing changes it.
-/

namespace PaymentBilling

open Relational Transact AuthorizeNetWebhookController SolanaConfirmationController

/-! ## Records that stay -/

/-- The record of a charge. -/
def chargeOf (gateway : PaymentGateway) (txn : String) (db : Data) : Option ChargeRecord :=
  schema.findBy .chargeRecords (.gatewayCharge gateway txn) db

/-- The charge has a record, and no later call changes it. -/
def ChargeLogged (gateway : PaymentGateway) (txn : String) (db : Data) : Prop :=
  ∃ row, chargeOf gateway txn db = some row ∧ ∀ (ι : Type) [DecidableEq ι]
    (calls : ι → Action (WebhookResponse ⊕ ConfirmationResponse))
    (s : Sys Stmt Data RowWrite RowLock Err (WebhookResponse ⊕ ConfirmationResponse) ι),
    Runs postgres AnyStep (Sys.start db calls) s → chargeOf gateway txn s.db = some row

theorem chargeLogged_of_hasCharge {gateway : PaymentGateway} {txn : String} {db : Data}
    (hv : schema.Valid db) (h : HasCharge gateway txn db) : ChargeLogged gateway txn db := by
  obtain ⟨row, hrow, rfl, rfl⟩ := h
  refine ⟨row, hv.findBy_of_mem hrow (by simp [schema]), fun ι _ calls s hruns => ?_⟩
  obtain ⟨hok, hle⟩ := (Discipline.SysOk.start locking hv calls).runs hruns
  have hrow' : row ∈ s.db .chargeRecords := mem_of_le hv hle (fun _ => rfl) hrow
  have hv' : schema.Valid s.db := hok.valid
  exact hv'.findBy_of_mem hrow' (by simp [schema])

theorem hasCharge_of_logged {gateway : PaymentGateway} {txn : String} {db : Data}
    (h : ChargeLogged gateway txn db) : HasCharge gateway txn db := by
  obtain ⟨row, hrow, -⟩ := h
  have hkey := Schema.key_of_findBy hrow
  simp only [schema, List.mem_singleton, UniqueKey.gatewayCharge.injEq] at hkey
  exact ⟨row, Schema.mem_of_findBy hrow, hkey.1.symm, hkey.2.symm⟩

/-! ## Settled charges -/

/-- A charge of a user who exists, with an amount that fits. -/
structure NamesCharge (transactionId userId amount : Js) (txn user : String) (n : Int) (db : Data) :
    Prop where
  transactionId : transactionId = .str txn
  named : txn ≠ ""
  userId : userId = .str user
  owned : user ≠ ""
  amount : amount = .int n
  inRange : inInt32 n = true
  exists_user : HasUser user db

/-- The call is the first delivery of a settled charge. -/
def DeliversCharge (gateway : PaymentGateway) (txn user : String) (n : Int) (db : Data) :
    GatewayCall → Prop
  | .card config req => gateway = .AUTHORIZE_NET ∧
    verifyHmac config.hmacSha256 req.rawBody req.signature config.secret = true ∧
    (∃ id, req.body.eventId = .str id ∧ id ≠ "" ∧ schema.find .processedWebhooks id db = none) ∧
    (req.body.type = .str "charge.approved" ∨ req.body.type = .str "subscription.created" ∨
      req.body.type = .str "subscription.renewed") ∧
    ∃ data, req.body.data = some data ∧
      NamesCharge data.transactionId data.userId (chargeCents data) txn user n db
  | .chain setting event => gateway = .SOLANA ∧ event.eventId.truthy = true ∧
    schema.find .processedWebhooks txn db = none ∧ ∃ data, event.data = some data ∧
      data.confirmations.lt (requiredConfirmations setting) = false ∧
      NamesCharge data.txHash data.userId data.amount txn user n db

/-- The credits of the charge fit, or were granted before. -/
def GrantFits (user : String) (n : Int) (key : String) (db : Data) : Prop :=
  0 < n ∧ CreditsService.Grantable user n key db

/-- A purchase gets as far as its record: its context says how many credits, and
they can be granted; or the charge has a record. -/
def PurchaseRecordable (txn user : String) (data : AuthorizeNetData) (db : Data) : Prop :=
  match creditAmount data.contextRef with
  | some n => GrantFits user n (purchaseCreditKey txn) db
  | none => HasCharge .AUTHORIZE_NET txn db

/-- The subscription of a card can be written. -/
def CardActivates (dates : Js → Option Int) (data : AuthorizeNetData) : Prop :=
  (∃ plan, mapPlanSlug data.plan = .ok plan) ∧
  (∃ id, data.arbSubscriptionId.nullableString? = some id) ∧
  (∃ customer, data.customerId.nullableString? = some customer) ∧
  DateKnown dates (dateField data.currentPeriodStart) ∧
  DateKnown dates (dateField data.currentPeriodEnd)

/-- Nothing stops the handler before it records the charge. -/
def Recordable (dates : Js → Option Int) (txn user : String) (n : Int) (db : Data) :
    GatewayCall → Prop
  | .card _ req => ∀ data, req.body.data = some data →
    if req.body.type = .str "charge.approved" then
      isCreditPurchase data = true → PurchaseRecordable txn user data db
    else CardActivates dates data
  | .chain _ event => ∀ data, event.data = some data →
    (data.plan.truthy = true → Activates data) ∧
    (∃ plan, SubscriptionPlan.nullableOfJs? data.plan = some plan) ∧
    GrantFits user n (chargeKey (.str txn)) db

/-! ## What is enough -/

section Enough

variable {dates : Js → Option Int} {txn user : String} {n : Int} {db v : Data}

theorem goes_recordCharge {W : Env → Prop} {data : AuthorizeNetData} {plan : Js}
    {p : Option SubscriptionPlan} (hplan : SubscriptionPlan.nullableOfJs? plan = some p)
    (h : NamesCharge data.transactionId data.userId (chargeCents data) txn user n db)
    (hle : schema.le db v) :
    postgres.Goes (LocksOf [.chargeRecords]) W (recordCharge data plan)
      (fun _ v' => HasCharge .AUTHORIZE_NET txn v') v := by
  have hnamed : (data.transactionId.truthy && data.userId.truthy) = true := by
    simp [h.transactionId, h.userId, Js.truthy, h.named, h.owned]
  rw [recordCharge, if_pos hnamed]
  exact goes_chargeRecord h.userId h.transactionId h.amount h.inRange hplan
    (exists_find_mono hle h.exists_user)

/-- A charge that grants no credits. -/
theorem sure_charge {W : Env → Prop} {data : AuthorizeNetData} {id type : String} {δ : Type}
    {p : Action δ} {plan : Js} {q : Option SubscriptionPlan}
    (hplan : SubscriptionPlan.nullableOfJs? plan = some q) (hv : schema.Valid db)
    (hnew : schema.find .processedWebhooks id db = none)
    (h : NamesCharge data.transactionId data.userId (chargeCents data) txn user n db)
    (hp : ∀ v, schema.Valid v → schema.le db v →
      postgres.Goes (LocksOf recordTables) W p (fun _ _ => True) v) {trace : List (Event Stmt Err)} :
    postgres.Sure W (transaction (query (.processedWebhookCreate (.str id) "authorize_net" (.str type))
        >>= fun _ => p >>= fun _ => recordCharge data plan))
      (fun r c' db' => r = .ok () ∧ c'.stack = [] ∧ HasCharge .AUTHORIZE_NET txn db') ⟨[], trace⟩ db :=
  sure_recordFirst (m := pure ()) (M := fun _ => True) hv hnew hp (only_pure ())
    (fun _ _ => ⟨(), rfl, rfl, trivial⟩) fun _ _ _ hle => goes_recordCharge hplan h hle

/-- An approved charge is recorded. -/
theorem sure_approved {W : Env → Prop} {data : AuthorizeNetData} {id : String} (hv : schema.Valid db)
    (hnew : schema.find .processedWebhooks id db = none)
    (h : NamesCharge data.transactionId data.userId (chargeCents data) txn user n db)
    (hrecordable : isCreditPurchase data = true → PurchaseRecordable txn user data db)
    {trace : List (Event Stmt Err)} :
    postgres.Sure W (transaction (query (.processedWebhookCreate (.str id) "authorize_net"
        (.str "charge.approved")) >>= fun _ => chargeApproved data))
      (fun r c' db' => r = .ok () ∧ c'.stack = [] ∧ HasCharge .AUTHORIZE_NET txn db') ⟨[], trace⟩ db := by
  have hundefined : SubscriptionPlan.nullableOfJs? .undefined = some none := rfl
  unfold chargeApproved
  split
  · next hpurchase =>
    have hrecordable := hrecordable hpurchase
    unfold PurchaseRecordable at hrecordable
    cases hcredits : creditAmount data.contextRef with
    | none =>
        rw [hcredits] at hrecordable
        refine sure_recordFirst (p := pure ()) (m := pure ()) (q := fun _ => pure ())
          (M := fun _ => True) hv hnew (fun _ _ _ => Engine.goes_pure trivial) (only_pure ())
          (fun _ _ => ⟨(), rfl, rfl, trivial⟩) fun _ v _ hle => Engine.goes_pure ?_
        obtain ⟨row, hrow, hcharge⟩ := hrecordable
        exact ⟨row, mem_of_le hv hle (fun _ => rfl) hrow, hcharge⟩
    | some k =>
        rw [hcredits] at hrecordable
        obtain ⟨hpos, hgrant⟩ := hrecordable
        rw [h.transactionId, h.userId]
        exact sure_recordFirst (p := pure ()) (M := fun _ => True) hv hnew
          (fun _ _ _ => Engine.goes_pure trivial)
          (anyStmt_of_only (CreditsService.grantCredits_only ..))
          (fun c₁ hfree => (CreditsService.sure_grantCredits hv hfree hpos hgrant).mono
            fun _ _ _ h => h.imp fun _ h => ⟨h.1, h.2.1, trivial⟩)
          fun _ _ _ hle => goes_recordCharge hundefined h hle
  · exact sure_charge (p := pure ()) hundefined hv hnew h fun _ _ _ => Engine.goes_pure trivial

/-- The charge of a subscription is recorded. -/
theorem sure_subscription {data : AuthorizeNetData} {id type : String} (hv : schema.Valid db)
    (hnew : schema.find .processedWebhooks id db = none)
    (h : NamesCharge data.transactionId data.userId (chargeCents data) txn user n db)
    (hactivates : CardActivates dates data) {trace : List (Event Stmt Err)} :
    postgres.Sure (Dated dates) (transaction (query (.processedWebhookCreate (.str id) "authorize_net"
        (.str type)) >>= fun _ => subscriptionActivated data))
      (fun r c' db' => r = .ok () ∧ c'.stack = [] ∧ HasCharge .AUTHORIZE_NET txn db') ⟨[], trace⟩ db := by
  obtain ⟨⟨plan, hplan⟩, hid, hcustomer, hstart, hend⟩ := hactivates
  have hlabel : SubscriptionPlan.ofJs? (.str plan.label) = some plan := by cases plan <;> rfl
  have hnullable : SubscriptionPlan.nullableOfJs? (.str plan.label) = some (some plan) := by
    cases plan <;> rfl
  unfold subscriptionActivated
  rw [hplan]
  refine sure_charge hnullable hv hnew h fun v hv' hle => ?_
  refine Engine.Goes.locks (fun l hl => .tail _ hl) ?_
  exact SubscriptionsService.goes_createOrUpdateFromGateway hv' h.userId
    (exists_find_mono hle h.exists_user) ⟨⟨plan, hlabel⟩, hid, hcustomer, hstart, hend⟩

/-- A payment on the chain is recorded. -/
theorem sure_payment {data : SolanaData} (hv : schema.Valid db)
    (hnew : schema.find .processedWebhooks txn db = none)
    (h : NamesCharge data.txHash data.userId data.amount txn user n db)
    (hactivates : data.plan.truthy = true → Activates data)
    (hplan : ∃ plan, SubscriptionPlan.nullableOfJs? data.plan = some plan)
    (hgrant : GrantFits user n (chargeKey (.str txn)) db) {trace : List (Event Stmt Err)} :
    postgres.Sure (Dated dates) (SolanaConfirmationController.recordAndApply data)
      (fun r c' db' => r = .ok () ∧ c'.stack = [] ∧ HasCharge .SOLANA txn db') ⟨[], trace⟩ db := by
  obtain ⟨plan, hplan⟩ := hplan
  rw [SolanaConfirmationController.recordAndApply, applyConfirmation_first, creditPayment, h.userId,
    h.amount, h.transactionId]
  refine sure_recordFirst (M := fun _ => True) hv hnew
    (fun v hv' hle => goes_activateFirst hv' h.userId (exists_find_mono hle h.exists_user) hactivates)
    (anyStmt_of_only (CreditsService.grantCredits_only ..))
    (fun c₁ hfree => (CreditsService.sure_grantCredits hv hfree hgrant.1 hgrant.2).mono
      fun _ _ _ h => h.imp fun _ h => ⟨h.1, h.2.1, trivial⟩) fun _ _ _ hle => ?_
  exact goes_chargeRecord rfl rfl rfl h.inRange hplan (exists_find_mono hle h.exists_user)

end Enough

/-! ## What is needed -/

section Needed

variable {config : AuthorizeNetConfig} {req : AuthorizeNetRequest}
  {data : AuthorizeNetData} {event : SolanaEvent} {payment : SolanaData} {setting : Option String}
  {txn user : String} {n : Int} {db db' : Data} {c' : LocalState}
  {F : Faults Stmt RowWrite RowLock Err}

/-- Credits that are granted while an event is recorded could be granted. -/
theorem wp_record_grants {δ : Type} {id type : Js} {source key description : String}
    {type' : CreditTransactionType} {metadata : Metadata} {p : Action δ} {q : CreditsResult → Action Unit}
    {gateway : PaymentGateway} {transactionId amountCents : Js} {Y : Effect locking Unit}
    {c : LocalState} (hp : ∀ K past, (soloProtocol.knowing K).Does past p (subscriptionWrites δ))
    (hq : ∀ K b past, (soloProtocol.knowing K).Does past (q b) Y)
    (hY : RecordsCharge gateway transactionId amountCents Y) :
    soloProtocol.wp (transaction (query (.processedWebhookCreate id source type) >>= fun _ =>
        p >>= fun _ => CreditsService.grantCredits (.str user) (.int n) type' description key metadata >>= q))
      (fun r _ _ => r = .ok () → GrantFits user n key db) c db := by
  refine Protocol.wp_mono _ (fun r c' db' hr hok => ?_) (wp_recordFirst_alone (Y := fun _ => Y)
    (M := fun r _ _ => ∀ a, r = .ok a → GrantFits user n key db) hp
    (anyStmt_of_only (CreditsService.grantCredits_only ..))
    (fun c₁ => Protocol.wp_mono _ (fun _ _ _ hr => ⟨fun _ _ => hr.1, hr.2⟩)
      CreditsService.wp_grantCredits_grantable) hq fun _ => hY)
  obtain ⟨b, _, _, -, hgrant, -⟩ := hr () hok
  exact hgrant b rfl

/-- A purchase that is handled and has a record could be recorded. -/
theorem purchase_of_ends (hv : schema.Valid db) (htype : req.body.type = .str "charge.approved")
    (hdata : req.body.data = some data) (htxn : data.transactionId = .str txn)
    (huser : data.userId = .str user) (hpurchase : isCreditPurchase data = true)
    (hends : postgres.Ends F (handleWebhook config req) {} db (.ok {}) c' db')
    (hcharge : HasCharge .AUTHORIZE_NET txn db') : PurchaseRecordable txn user data db := by
  have happroved : applyEvent req.body.type req.body.data = chargeApproved data := by
    rw [htype, hdata]
    rfl
  rw [chargeApproved, if_pos hpurchase] at happroved
  unfold PurchaseRecordable
  cases hcredits : creditAmount data.contextRef with
  | none =>
      have hnothing : applyEvent req.body.type req.body.data = pure () := by
        rw [happroved, hcredits]
      have honly : Only (WritesIn [.processedWebhooks]) (handleWebhook config req) 0 :=
        handleWebhook_only config req (by simp [WritesIn, Stmt.writes])
          (by simp [WritesIn, Stmt.writes]) (hnothing ▸ only_pure ())
      have hsame := same_of_ends (t := .chargeRecords) hv honly (by decide) hends
      rw [HasCharge, hsame] at hcharge
      exact hcharge
  | some k =>
      have hgrants : applyEvent req.body.type req.body.data = (pure () >>= fun _ =>
          CreditsService.grantCredits (.str user) (.int k) .PURCHASE "Credit purchase via Authorize.net"
            (purchaseCreditKey txn) [("authorizeNetTransactionId", data.transactionId)] >>= fun _ =>
              recordCharge data .undefined) := by
        rw [happroved, hcredits, huser, htxn]
        rfl
      have hwp : soloProtocol.wp (handleWebhook config req)
          (fun r _ _ => r = .ok {} → GrantFits user k (purchaseCreditKey txn) db) {} db := by
        refine wp_handleWebhook _ (fun _ _ _ h => by cases h) (fun _ _ _ _ _ _ _ h => by cases h)
          fun id db₁ hs _ _ => ?_
        obtain rfl : db₁ = db := hs.env
        rw [AuthorizeNetWebhookController.recordAndApply, hgrants]
        refine Protocol.wp_mono _ (fun r c' db' hr => ?_) (wp_record_grants
          (fun _ _ => does_pure_subscription ()) (fun _ _ _ => does_recordCharge data .undefined)
          (recordsCharge_recordChargeEffect data))
        cases r with
        | ok _ => exact fun _ => hr rfl
        | error e => exact fun _ h => by cases h
      exact (soloProtocol.ends_of_wp hv trivial .nil hwp hends).1 rfl

/-- A payment on the chain that is settled could be granted. -/
theorem payment_of_ends (hv : schema.Valid db) (hdata : event.data = some payment)
    (htxn : payment.txHash = .str txn) (huser : payment.userId = .str user)
    (hamount : payment.amount = .int n)
    (hends : postgres.Ends F (handleConfirmation setting event) {} db (.ok { settled := true }) c' db') :
    GrantFits user n (chargeKey (.str txn)) db := by
  have hwp : soloProtocol.wp (handleConfirmation setting event)
      (fun r _ _ => r = .ok { settled := true } → GrantFits user n (chargeKey (.str txn)) db) {} db := by
    refine wp_handleConfirmation _ (fun _ _ _ => nofun) (fun _ => nofun) (fun _ _ _ _ _ _ _ _ _ => nofun)
      fun d id db₁ hd hs _ _ => ?_
    obtain rfl : db₁ = db := hs.env
    obtain rfl := Option.some.inj (hd.symm.trans hdata)
    rw [SolanaConfirmationController.recordAndApply, applyConfirmation_first, creditPayment, huser,
      hamount, htxn]
    refine Protocol.wp_mono _ (fun r c' db' hr => ?_) (wp_record_grants
      (fun _ _ => does_activateFirst d)
      (fun _ _ _ => Protocol.does_map (does_chargeRecordUpsert _) fun _ _ _ h => h)
      (recordsCharge_effect _ _ _))
    cases r with
    | ok _ => exact fun _ => hr rfl
    | error e => exact fun _ => nofun
  exact (soloProtocol.ends_of_wp hv trivial .nil hwp hends).1 rfl

/-- A subscription that is handled could be written. -/
theorem yields_subscription (dates : Js → Option Int) (data : AuthorizeNetData) :
    postgres.Yields (Dated dates) (subscriptionActivated data) fun _ => CardActivates dates data := by
  unfold subscriptionActivated
  split
  · exact Engine.yields_throw _
  · next plan hplan =>
    refine Engine.yields_bind (SubscriptionsService.yields_createOrUpdateFromGateway _)
      fun _ h => Engine.yields_of_always fun _ => ?_
    exact ⟨⟨plan, hplan⟩, h.id, h.customer, h.periodStart, h.periodEnd⟩

/-- A payment that is settled could be recorded. -/
theorem yields_payment (dates : Js → Option Int) (data : SolanaData) :
    postgres.Yields (Dated dates) (applyConfirmation data) fun _ =>
      (data.plan.truthy = true → Activates data) ∧
        ∃ plan, SubscriptionPlan.nullableOfJs? data.plan = some plan := by
  rw [applyConfirmation_first]
  have hfirst : postgres.Yields (Dated dates) (activateFirst data) fun _ =>
      data.plan.truthy = true → Activates data := by
    unfold activateFirst
    split
    · refine Engine.yields_bind (SubscriptionsService.yields_createOrUpdateFromGateway _)
        fun _ h => Engine.yields_of_always fun _ _ => ?_
      exact ⟨h.plan, h.id⟩
    · next hplan => exact Engine.yields_of_always fun _ h => (hplan h).elim
  refine Engine.yields_bind hfirst fun _ hactivates => ?_
  refine Engine.yields_bind (A := fun _ => True) (Engine.yields_of_always fun _ => trivial) fun _ _ => ?_
  refine Engine.yields_bind (A := fun _ => ∃ plan, SubscriptionPlan.nullableOfJs? data.plan = some plan)
    (Engine.yields_exec fun env db row ws _ hx => ?_) fun _ hplan => Engine.yields_pure ⟨hactivates, hplan⟩
  obtain ⟨_, _, _, -, -, -, -, hplan, -⟩ := exec_chargeRecordUpsert hx
  exact hplan

end Needed

/-! ## Every settled charge -/

section Settled

variable {dates : Js → Option Int} {gateway : PaymentGateway} {txn user : String} {n : Int}
  {db : Data} {call : GatewayCall}

/-- The call is sure to succeed and to leave a lasting record of the charge. -/
structure SureLogged (dates : Js → Option Int) (gateway : PaymentGateway) (txn : String)
    (call : GatewayCall) (db : Data) : Prop where
  sure : postgres.Sure (Dated dates) call.run
    (fun r _ db' => r = .ok call.handled ∧ ChargeLogged gateway txn db') {} db

/-- A handler that is sure to answer `a` makes a call that is sure to. -/
theorem sure_answer {W : Env → Prop} {α β : Type} {p : Action α} {f : α → β} {a : α} {Z : Data → Prop}
    (h : postgres.Sure W p (fun r _ db' => r = .ok a ∧ Z db') {} db) :
    postgres.Sure W (p >>= fun a => pure (f a)) (fun r _ db' => r = .ok (f a) ∧ Z db') {} db := by
  refine Engine.sure_bind (h.mono fun r c' db' hr => ?_)
  obtain ⟨rfl, hz⟩ := hr
  exact ⟨rfl, hz⟩

theorem sureLogged_of_recordable (hv : schema.Valid db)
    (h : DeliversCharge gateway txn user n db call) (hrecordable : Recordable dates txn user n db call) :
    SureLogged dates gateway txn call db := by
  have hcharge : postgres.Sure (Dated dates) call.run
      (fun r _ db' => r = .ok call.handled ∧ HasCharge gateway txn db') {} db := by
    cases call with
    | card config req =>
        obtain ⟨rfl, hsigned, ⟨id, hid, hne, hnew⟩, htype, data, hdata, hnames⟩ := h
        have hrecordable := hrecordable data hdata
        have hnamed : req.body.type.truthy = true := by
          rcases htype with htype | htype | htype <;> rw [htype] <;> decide
        refine sure_answer (sure_handleWebhook hsigned hid hne hnamed hnew fun trace => ?_)
        rw [AuthorizeNetWebhookController.recordAndApply, hid, hdata]
        rcases htype with htype | htype | htype
        · rw [if_pos htype] at hrecordable
          rw [htype]
          exact sure_approved hv hnew hnames hrecordable
        · rw [if_neg (by rw [htype]; decide)] at hrecordable
          rw [htype]
          exact sure_subscription hv hnew hnames hrecordable
        · rw [if_neg (by rw [htype]; decide)] at hrecordable
          rw [htype]
          exact sure_subscription hv hnew hnames hrecordable
    | chain setting event =>
        obtain ⟨rfl, hevent, hnew, data, hdata, hdeep, hnames⟩ := h
        obtain ⟨hactivates, hplan, hgrant⟩ := hrecordable data hdata
        exact sure_answer (sure_handleConfirmation hdata hevent hnames.transactionId hnames.named hdeep
          hnew fun trace => sure_payment hv hnew hnames hactivates hplan hgrant)
  exact ⟨(hcharge.ordered (D := locking) hv .nil).mono fun r c' db' hr =>
    ⟨hr.1.1, chargeLogged_of_hasCharge hr.2.1 hr.1.2⟩⟩

/-- What is sure of a call is sure of its handler. -/
theorem sure_of_answer {W : Env → Prop} {α β : Type} {p : Action α} {f : α → β} {a : α}
    {Z : Data → Prop} (hf : Function.Injective f)
    (h : postgres.Sure W (p >>= fun a => pure (f a)) (fun r _ db' => r = .ok (f a) ∧ Z db') {} db) :
    postgres.Sure W p (fun r _ db' => r = .ok a ∧ Z db') {} db := by
  rw [Prog.bind_def, Engine.sure_andThen] at h
  refine h.mono fun r c' db' hr => ?_
  cases r with
  | ok b =>
      obtain ⟨hb, hz⟩ := hr
      exact ⟨by rw [hf (Except.ok.inj hb)], hz⟩
  | error e =>
      obtain ⟨he, -⟩ := hr
      cases he

theorem recordable_of_sureLogged (hv : schema.Valid db)
    (h : DeliversCharge gateway txn user n db call) (hsure : SureLogged dates gateway txn call db) :
    Recordable dates txn user n db call := by
  have hdated : Dated dates { Env.ordinary "" with parseDate := dates } := rfl
  cases call with
  | card config req =>
      obtain ⟨rfl, -, -, htype, data, hdata, hnames⟩ := h
      have hsure : postgres.Sure (Dated dates) (handleWebhook config req)
          (fun r _ db' => r = .ok {} ∧ ChargeLogged .AUTHORIZE_NET txn db') {} db :=
        sure_of_answer (fun _ _ => Sum.inl.inj) hsure.sure
      intro d hd
      obtain rfl := Option.some.inj (hd.symm.trans hdata)
      split
      · next happroved =>
        intro hpurchase
        obtain ⟨r, c', db', hends, rfl, hlogged⟩ := Engine.Sure.ends (F := noFault) hdated hsure
        exact purchase_of_ends hv happroved hdata hnames.transactionId hnames.userId hpurchase hends
          (hasCharge_of_logged hlogged)
      · next hsubscription =>
        have happly : applyEvent req.body.type req.body.data = subscriptionActivated d := by
          rw [hdata]
          rcases htype.resolve_left hsubscription with htype | htype <;> rw [htype] <;> rfl
        have hyields : postgres.Yields (Dated dates) (handleWebhook config req) fun a =>
            a = {} → CardActivates dates d := yields_handleWebhook (by
          rw [happly]
          exact yields_subscription dates d)
        obtain ⟨r, c', db', -, ⟨rfl, -⟩, hactivates⟩ :=
          Engine.Sure.ends (F := noFault) hdated (hsure.and (hyields {} db))
        exact hactivates {} rfl rfl
  | chain setting event =>
      obtain ⟨rfl, -, -, data, hdata, -, hnames⟩ := h
      have hsure : postgres.Sure (Dated dates) (handleConfirmation setting event)
          (fun r _ db' => r = .ok { settled := true } ∧ ChargeLogged .SOLANA txn db') {} db :=
        sure_of_answer (fun _ _ => Sum.inr.inj) hsure.sure
      intro d hd
      obtain rfl := Option.some.inj (hd.symm.trans hdata)
      have hyields : postgres.Yields (Dated dates) (handleConfirmation setting event) _ :=
        yields_handleConfirmation hdata (yields_payment dates d)
      obtain ⟨r, c', db', hends, ⟨rfl, -⟩, hrecordable⟩ :=
        Engine.Sure.ends (F := noFault) hdated (hsure.and (hyields {} db))
      obtain ⟨hactivates, hplan⟩ := hrecordable _ rfl rfl
      exact ⟨hactivates, hplan,
        payment_of_ends hv hdata hnames.transactionId hnames.userId hnames.amount hends⟩

/-- A purchase of the user, with the given context. -/
def contextPurchase (contextRef : String) : AuthorizeNetData where
  userId := .str "user"
  transactionId := .str "charge_1"
  amount := .int 100
  contextType := .str "credit_purchase"
  contextRef := .str contextRef

/-- Its delivery. -/
def contextPurchaseCall (contextRef : String) : GatewayCall :=
  .card constantHmac { purchaseDelivery with
    body := { purchaseDelivery.body with data := some (contextPurchase contextRef) } }

theorem contextPurchaseCall_delivers (contextRef : String) :
    DeliversCharge .AUTHORIZE_NET "charge_1" "user" 100 oneUser.rows (contextPurchaseCall contextRef) := by
  have hsigned : verifyHmac constantHmac.hmacSha256 [] (some "01") constantHmac.secret = true := by
    decide +kernel
  have huser : schema.find .users "user" oneUser.rows = some ⟨"user"⟩ := by decide +kernel
  exact ⟨rfl, hsigned, ⟨"event_1", rfl, by decide, by decide +kernel⟩, .inl rfl, contextPurchase contextRef,
    rfl, rfl, by decide, rfl, by decide, rfl, by decide, ⟨"user"⟩, huser⟩

theorem recordable_contextPurchaseCall (contextRef : String) :
    Recordable dates "charge_1" "user" n db (contextPurchaseCall contextRef) ↔
      (isCreditPurchase (contextPurchase contextRef) = true →
        PurchaseRecordable "charge_1" "user" (contextPurchase contextRef) db) := by
  constructor
  · exact fun h => h _ rfl
  · intro h data hdata
    obtain rfl := Option.some.inj hdata
    exact h

end Settled

end PaymentBilling
