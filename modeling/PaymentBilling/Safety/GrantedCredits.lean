import PaymentBilling.Safety.CreditLegs
import PaymentBilling.Spec.ChargeOutcomes

/-!
# Safety.GrantedCredits

The credits that a charge grants, and those that its reversal takes back.

A charge grants the credits that were bought, while a reversal deducts the
number of cents that is given back.
-/

namespace PaymentBilling

open Relational Transact AuthorizeNetWebhookController SolanaConfirmationController

/-! ## What a charge grants -/

/-- A new charge that is accepted, with the credits it grants and the cents it
costs. -/
inductive Accepted (txn user : String) (db db' : Data) : PaymentGateway → Int → Int → Prop
  | purchase {config : AuthorizeNetConfig} {req : AuthorizeNetRequest} {data : AuthorizeNetData}
      {c : LocalState} {n cents : Int} (htype : req.body.type = .str "charge.approved")
      (hdata : req.body.data = some data) (htxn : data.transactionId = .str txn)
      (huser : data.userId = .str user) (hpurchase : isCreditPurchase data = true)
      (hcredits : creditAmount data.contextRef = some n) (hcents : chargeCents data = .int cents)
      (hnew : CreditsService.Unlogged (purchaseCreditKey txn) db)
      (hends : postgres.Ends anyFault (handleWebhook config req) {} db (.ok {}) c db')
      (hflawless : Flawless c.trace) : Accepted txn user db db' .AUTHORIZE_NET n cents
  | subscription {config : AuthorizeNetConfig} {req : AuthorizeNetRequest} {data : AuthorizeNetData}
      {c : LocalState} {cents : Int}
      (htype : req.body.type = .str "subscription.created" ∨ req.body.type = .str "subscription.renewed")
      (hdata : req.body.data = some data) (htxn : data.transactionId = .str txn)
      (huser : data.userId = .str user) (hcents : chargeCents data = .int cents)
      (hends : postgres.Ends anyFault (handleWebhook config req) {} db (.ok {}) c db')
      (hflawless : Flawless c.trace) : Accepted txn user db db' .AUTHORIZE_NET 0 cents
  | confirmation {setting : Option String} {event : SolanaEvent} {data : SolanaData} {c : LocalState}
      {n : Int} (hdata : event.data = some data) (htxn : data.txHash = .str txn)
      (huser : data.userId = .str user) (hamount : data.amount = .int n)
      (hnew : CreditsService.Unlogged (chargeKey (.str txn)) db)
      (hends : postgres.Ends anyFault (handleConfirmation setting event) {} db
        (.ok { settled := true }) c db')
      (hflawless : Flawless c.trace) : Accepted txn user db db' .SOLANA n n

section Granted

variable {user txn : String} {gateway : PaymentGateway} {db db' : Data} {n cents : Int}

/-- What a charge that is handled leaves: its credits, and its amount on record. -/
theorem ChargeHandled.granted {credit : Option (String × Int)} {id transactionId amountCents : Js}
    (h : ChargeHandled user credit id gateway transactionId amountCents db db') (hv : schema.Valid db)
    (hcredit : (credit = none ∧ n = 0) ∨ ∃ key, credit = some (key, n) ∧ CreditsService.Unlogged key db)
    (htxn : transactionId = .str txn) (hcents : amountCents = .int cents)
    (hnew : ¬HasCharge gateway txn db) :
    balanceOf user db' = balanceOf user db + n ∧ ∀ row ∈ db' .chargeRecords,
      row.gatewayType = gateway → row.gatewayTransactionId = txn → row.amountCents = cents := by
  obtain ⟨db₁, hmoved, -, hhandled, hcharged⟩ := h
  have hbalance : balanceOf user db₁ = balanceOf user db + n := by
    cases hcredit with
    | inl hnone =>
        obtain ⟨rfl, rfl⟩ := hnone
        rw [show db₁ = db from hmoved, Int.add_zero]
    | inr hsome =>
        obtain ⟨key, rfl, hunlogged⟩ := hsome
        have hmoved : MovedOnce user key n db db₁ := hmoved
        rw [hmoved.balanceOf hv, isLogged_eq_false_iff.mpr hunlogged]
        rfl
  have hcharges : db₁ .chargeRecords = db .chargeRecords := Moved.other hmoved (by decide)
  constructor
  · rw [balanceOf_of_same (hhandled.credits .credits (by decide)), hbalance]
  · intro row hrow hgateway hid
    have hnone : ¬HasCharge gateway txn db₁ := by
      rw [HasCharge, hcharges]
      exact hnew
    exact Js.int_inj.mp ((hcharged txn htxn hnone row hrow hgateway hid).symm.trans hcents)

/-- A new charge raises the balance by its credits, and its amount is recorded. -/
theorem Accepted.granted (h : Accepted txn user db db' gateway n cents) (hv : schema.Valid db)
    (hnew : ¬HasCharge gateway txn db) :
    balanceOf user db' = balanceOf user db + n ∧ ∀ row ∈ db' .chargeRecords,
      row.gatewayType = gateway → row.gatewayTransactionId = txn → row.amountCents = cents := by
  cases h with
  | purchase htype hdata htxn huser hpurchase hcredits hcents hunlogged hends hflawless =>
      obtain ⟨hq, -⟩ := soloProtocol.ends_of_wp hv trivial .nil
        (wp_purchase_alone htype hdata huser hpurchase hcredits) hends
      refine ((hq hflawless).2 rfl).2.granted hv (.inr ⟨_, rfl, ?_⟩) htxn hcents hnew
      rw [htxn]
      exact hunlogged
  | subscription htype hdata htxn huser hcents hends hflawless =>
      obtain ⟨hq, -⟩ := soloProtocol.ends_of_wp hv trivial .nil
        (wp_subscription_alone user htype hdata) hends
      exact ((hq hflawless).2 rfl).2.granted hv (.inl ⟨rfl, rfl⟩) htxn hcents hnew
  | @confirmation setting event data c _ hdata htxn huser hamount hunlogged hends hflawless =>
      obtain ⟨hq, -⟩ := soloProtocol.ends_of_wp hv trivial .nil (wp_settled_alone hdata huser) hends
      have hhandled := ((hq hflawless).2 rfl).2
      rw [htxn, hamount, Js.whole_int] at hhandled
      exact hhandled.granted hv (.inr ⟨_, rfl, hunlogged⟩) rfl rfl hnew

end Granted

/-! ## What a refund takes back -/

section Refunds

variable {db : Data} {request : RefundRequest}

theorem wp_deductRefunded_alone {c : LocalState} :
    soloProtocol.wp (RefundsService.deductRefunded request) (fun _ c' db' => c'.stack = c.stack ∧
      (Flawless c'.trace → CreditsService.Deducted (.str request.userId) (.int request.amount)
        (some (refundKey request.id)) db db')) c db := by
  rw [RefundsService.deductRefunded, Protocol.wp_tryCatch, Protocol.wp_bind]
  refine Protocol.wp_mono _ (fun r c' db' hr => ?_) CreditsService.wp_deductCredits_alone
  cases r with
  | ok _ => exact hr
  | error _ => exact hr

/-- The credits of `db'` are those that a deduction for the request leaves. -/
def RefundTaken (request : RefundRequest) (db db' : Data) : Prop :=
  ∃ db₁ db₂, (∀ t ∈ creditTables, db₁ t = db t) ∧ schema.Valid db₁ ∧
    CreditsService.Deducted (.str request.userId) (.int request.amount)
      (some (refundKey request.id)) db₁ db₂ ∧ ∀ t ∈ creditTables, db' t = db₂ t

theorem RefundTaken.of_same {db₁ db₂ db₃ : Data} (h : RefundTaken request db₁ db₂)
    (hbefore : ∀ t ∈ creditTables, db₁ t = db t) (hafter : ∀ t ∈ creditTables, db₃ t = db₂ t) :
    RefundTaken request db db₃ := by
  obtain ⟨d₁, d₂, h₁, hv, hdeducted, h₂⟩ := h
  exact ⟨d₁, d₂, fun t ht => (h₁ t ht).trans (hbefore t ht), hv, hdeducted,
    fun t ht => (hafter t ht).trans (h₂ t ht)⟩

/-- What a refund that is recorded leaves: the deduction is committed first, and
then the rows of the refund. -/
def RefundBooked (request : RefundRequest) (refundedAmount : Js) (db db' : Data) : Prop :=
  ∃ db₁ txn ws, CreditsService.Deducted (.str request.userId) (.int request.amount)
      (some (refundKey request.id)) db db₁ ∧ schema.Valid db₁ ∧ locking.fitsAll ws db₁ ∧
    Transferred (RefundsService.refundTransfer request refundedAmount) txn ws db₁ ∧
    ∀ t, t ≠ .refundRequests → db' t = postgres.applyAll ws db₁ t

theorem RefundBooked.taken {refundedAmount : Js} {db' : Data}
    (h : RefundBooked request refundedAmount db db') (hv : schema.Valid db) :
    RefundTaken request db db' := by
  obtain ⟨db₁, txn, ws, hdeducted, -, -, htransfer, hother⟩ := h
  refine ⟨db, db₁, fun _ _ => rfl, hv, hdeducted, fun t ht => ?_⟩
  have hledger : t ∉ ledgerTables := fun hin => by
    revert ht hin
    cases t <;> decide
  have hrequests : t ≠ .refundRequests := by
    rintro rfl
    revert ht
    decide
  rw [hother t hrequests, htransfer.other hledger]

/-- The transaction of a refund. -/
theorem wp_recordRefund_alone {result : RefundResult} {c : LocalState} :
    soloProtocol.wp (RefundsService.recordRefund request result) (fun r c' db' => r = .ok () →
      Flawless c'.trace → RefundBooked request result.refundedAmount db db') c db := by
  have hbody : RefundsService.recordRefund request result = transaction
      (RefundsService.recordRows request result >>= fun _ =>
        RefundsService.deductRefunded request >>= pure) := by
    rw [Prog.bind_pure]
    rfl
  rw [hbody]
  refine Protocol.wp_mono _ (fun r c' db' hr hok hflawless => ?_) (Protocol.wp_transaction_alone
    (Y := fun _ b => Effect.pure locking b)
    (M := fun _ _ past db₁ => Flawless past → CreditsService.Deducted (.str request.userId)
      (.int request.amount) (some (refundKey request.id)) db db₁)
    (fun _ => RefundsService.does_recordRows request result)
    (fun _ => anyStmt_of_only (RefundsService.deductRefunded_only request))
    (fun _ c₁ => Protocol.wp_mono _ (fun _ _ _ hr => ⟨fun _ _ => hr.1, hr.2⟩) wp_deductRefunded_alone)
    fun _ _ b _ => Protocol.does_pure b)
  obtain ⟨a, b, past, db₁, ws₁, ws₂, hpast, hmid, hv₁, hfits, hx, hy, rfl⟩ := hr () hok
  obtain ⟨response, ws, ws', rfl, htransfer, rfl⟩ := hx
  obtain rfl : ws₂ = [] := hy.2
  rw [List.append_nil, locking.fitsAll_append] at hfits
  refine ⟨db₁, _, ws, hmid (hflawless.of_grows hpast), hv₁, hfits.1, transferred_of_rel htransfer,
    fun t ht => ?_⟩
  rw [List.append_nil, postgres.applyAll_append, applyAll_single, apply_update_other ht]

/-- The gateway is asked first, and what it has refunded is booked. -/
theorem wp_processPaymentRefund_alone {trace : List (Event Stmt Err)}
    (hunpaid : request.paymentRefundId.filter (· ≠ "") = none) :
    soloProtocol.wp (RefundsService.processPaymentRefund request) (fun r c' db' => r = .ok () →
      Flawless c'.trace → ∃ row db₀, (∀ t, t ≠ .gatewayRefunds → db₀ t = db t) ∧ schema.Valid db₀ ∧
        schema.find .gatewayRefunds (refundKey request.id) db₀ = some row ∧
        RefundBooked request row.refundedAmount db₀ db') ⟨[], trace⟩ db := by
  rw [RefundsService.processPaymentRefund, hunpaid, if_neg (by simp)]
  split
  · exact fun h => by cases h
  split
  · exact fun h => by cases h
  rw [Protocol.wp_bind, RefundsService.refundCharge, Protocol.wp_bind]
  refine Protocol.wp_exec_auto _ (fun _ _ _ h => by cases h) fun env r ws db₁ hs₁ hx => ?_
  obtain rfl : db₁ = db := hs₁.env
  obtain ⟨row, rfl, hkey, hrow⟩ := exec_refundCharge hx
  have hfits := locking.fitsAll_of_exec hs₁.valid hx
  have hbooks : (∀ t, t ≠ .gatewayRefunds → postgres.applyAll ws db₁ t = db₁ t) ∧
      schema.find .gatewayRefunds (refundKey request.id) (postgres.applyAll ws db₁) = some row := by
    cases hrow with
    | inl hfound =>
        rw [hfound.2]
        exact ⟨fun _ _ => rfl, hfound.1⟩
    | inr hnew =>
        rw [hnew.2, applyAll_single]
        refine ⟨fun t ht => apply_insert_other ht _ _, ?_⟩
        have hnone : schema.find .gatewayRefunds (refundKey request.id) db₁ = none := hnew.1
        rw [Schema.find_insert, hnone, Option.none_or]
        exact if_pos hkey
  refine ⟨⟨trivial, trivial⟩, ?_⟩
  cases env.lost with
  | some message => exact fun h => by cases h
  | none =>
      show soloProtocol.wp
        (RefundsService.recordRefund request ⟨row.gatewayRefundId, row.refundedAmount⟩) _ _ _
      exact Protocol.wp_mono _ (fun r c' db' hr hok hflawless => ⟨row, _, hbooks.1,
        locking.valid_applyAll hfits hs₁.valid, hbooks.2, hr hok hflawless⟩) wp_recordRefund_alone

/-- A payment refund that is processed alone. -/
theorem wp_refund_alone {id : String} (hfind : schema.find .refundRequests id db = some request)
    (htype : request.type = .PAYMENT) (hunpaid : request.paymentRefundId = none) :
    soloProtocol.wp (RefundsService.processRefund id) (fun r c' db' => ∀ r', r = .ok r' →
      Flawless c'.trace → RefundTaken request db db') {} db := by
  have hcredits : ∀ t ∈ creditTables, t ≠ .refundRequests ∧ t ≠ .gatewayRefunds := by decide
  refine RefundsService.wp_processRefund _
    (G := fun _ c' db' => Flawless c'.trace → RefundTaken request db db') (fun _ _ _ _ => nofun)
    (fun seen db₁ hs₁ hseen _ => ?_) (fun _ _ _ _ _ _ _ _ => ⟨trivial, trivial⟩)
    (fun seen r now events db₁ db₂ _ _ hg hs₂ => ⟨⟨trivial, trivial⟩, fun r' _ hflawless => ?_⟩)
  · obtain rfl : db₁ = db := hs₁.env
    obtain rfl : seen = request := Option.some.inj (hseen.symm.trans hfind)
    have hpay : RefundsService.dispatch seen = RefundsService.processPaymentRefund seen := by
      rw [RefundsService.dispatch, htype]
    rw [hpay]
    refine Protocol.wp_mono _ (fun r c' db' hr a ha hflawless => ?_)
      (wp_processPaymentRefund_alone (by rw [hunpaid]; rfl))
    -- the gateway's books are not those of the credits
    obtain ⟨row, db₀, hsame, hv₀, -, hbooked⟩ := hr ha hflawless
    exact (hbooked.taken hv₀).of_same (fun t ht => hsame t (hcredits t ht).2) fun _ _ => rfl
  · obtain rfl : db₂ = db₁ := hs₂.env
    exact (hg (hflawless.of_grows ⟨[_], rfl⟩)).of_same (fun _ _ => rfl)
      fun t ht => apply_update_other (hcredits t ht).1 _ _ _

end Refunds

/-! ## The comparison -/

/-- A reversal: a chargeback of an amount, or the request of a payment refund. -/
inductive Reversal
  | chargeback (config : AuthorizeNetConfig) (req : AuthorizeNetRequest) (amount : Int)
  | refund (id : String)

/-- The cents that are given back of a charge of `cents`; a refund is in full. -/
def Reversal.amount (cents : Int) : Reversal → Int
  | chargeback _ _ amount => amount
  | refund _ => cents

/-- The charge whose record is in `charged` is reversed for the first time. -/
inductive Reverses (gateway : PaymentGateway) (txn user : String) (charged db db' : Data) :
    Reversal → Prop
  | chargeback {config : AuthorizeNetConfig} {req : AuthorizeNetRequest} {data : AuthorizeNetData}
      {c : LocalState} {amount : Int} (hgateway : gateway = .AUTHORIZE_NET)
      (htype : req.body.type = .str "chargeback.received") (hdata : req.body.data = some data)
      (htxn : data.transactionId = .str txn) (huser : data.userId = .str user)
      (hamount : data.amount = .int amount) (hpos : 0 < amount)
      (hundisputed : ∀ d ∈ db .disputes, d.gatewayDisputeId ≠ gatewayDisputeKey txn)
      (huntaken : CreditsService.Unlogged (chargebackCreditKey txn) db)
      (hends : postgres.Ends anyFault (handleWebhook config req) {} db (.ok {}) c db')
      (hflawless : Flawless c.trace) :
      Reverses gateway txn user charged db db' (.chargeback config req amount)
  | refund {request r : RefundRequest} {record : ChargeRecord} {c : LocalState}
      (hfind : schema.find .refundRequests request.id db = some request)
      (htype : request.type = .PAYMENT) (huser : request.userId = user)
      (hgateway : request.gatewayType = some gateway)
      (htxn : request.originalGatewayTransactionId = some txn)
      (hrecord : record ∈ charged .chargeRecords) (hcharge : record.gatewayType = gateway ∧
        record.gatewayTransactionId = txn)
      (hfull : request.amount = record.amountCents) (hpos : 0 < request.amount)
      (hunpaid : request.paymentRefundId = none)
      (huntaken : CreditsService.Unlogged (refundKey request.id) db)
      (hends : postgres.Ends anyFault (RefundsService.processRefund request.id) {} db (.ok r) c db')
      (hflawless : Flawless c.trace) : Reverses gateway txn user charged db db' (.refund request.id)

/-- A reversal that the balance covers lowers it by the cents that are given back. -/
theorem Reverses.taken {gateway : PaymentGateway} {txn user : String} {charged db db' : Data}
    {reversal : Reversal} {cents : Int} (h : Reverses gateway txn user charged db db' reversal)
    (hv : schema.Valid db) (hrecorded : ∀ row ∈ charged .chargeRecords, row.gatewayType = gateway →
      row.gatewayTransactionId = txn → row.amountCents = cents)
    (hcovered : reversal.amount cents ≤ balanceOf user db) :
    balanceOf user db' = balanceOf user db - reversal.amount cents := by
  cases h with
  | @chargeback config req data c amount _ htype hdata htxn huser hamount hpos hundisputed huntaken
      hends hflawless =>
      have hcovered : amount ≤ balanceOf user db := hcovered
      obtain ⟨-, hbalance, -⟩ := chargeback_taken hv htype hdata huser hamount hpos
        (by rw [htxn]; exact hundisputed) (by rw [htxn]; exact huntaken) hends hflawless
      rw [hbalance, Reversal.amount]
      exact congrArg _ (if_pos hcovered)
  | @refund request r record c hfind htype huser _ _ hrecord hcharge hfull hpos hunpaid huntaken
      hends hflawless =>
      have hcents : request.amount = cents :=
        hfull.trans (hrecorded record hrecord hcharge.1 hcharge.2)
      have hcovered : cents ≤ balanceOf user db := hcovered
      obtain ⟨hq, -⟩ := soloProtocol.ends_of_wp hv trivial .nil
        (wp_refund_alone hfind htype hunpaid) hends
      obtain ⟨db₁, db₂, hbefore, hv₁, hdeducted, hafter⟩ := hq r rfl hflawless
      have hkey : CreditsService.givenKey (some (refundKey request.id)) = some (refundKey request.id) :=
        CreditsService.givenKey_append (by decide)
      rw [huser, hcents] at hdeducted
      rw [hcents] at hpos
      have hbalance := hdeducted.balanceOf hv₁ hpos fun k hk => by
        obtain rfl := Option.some.inj (hkey.symm.trans hk)
        rw [CreditsService.Unlogged, hbefore .creditTransactions (by decide)]
        exact huntaken
      rw [balanceOf_of_same (hbefore .credits (by decide)), if_pos hcovered] at hbalance
      rw [balanceOf_of_same (hafter .credits (by decide)), hbalance, Reversal.amount]

/-- A reversal that the balance covers takes back what the charge has granted
exactly when the cents that are given back are as many as these credits.
Nothing need be known of what happens in between: each call is told by the
balance around it. -/
theorem reversal_takesGranted (gateway : PaymentGateway) (txn user : String) (db : Database)
    (db₁ : Data) (db₂ : Database) (db₃ : Data) (n cents : Int) (reversal : Reversal)
    (hcharge : Accepted txn user db.rows db₁ gateway n cents)
    (hnew : ¬HasCharge gateway txn db.rows)
    (hreversal : Reverses gateway txn user db₁ db₂.rows db₃ reversal)
    (hcovered : reversal.amount cents ≤ balanceOf user db₂.rows) :
    balanceOf user db₂.rows - balanceOf user db₃ = balanceOf user db₁ - balanceOf user db.rows ↔
      reversal.amount cents = n := by
  obtain ⟨hgranted, hrecorded⟩ := hcharge.granted db.valid hnew
  have htaken := hreversal.taken db₂.valid hrecorded hcovered
  omega

/-! ## A purchase at half the price -/

/-- A purchase of 100 credits for this many cents. -/
def purchaseFor (cents : Int) : AuthorizeNetRequest where
  rawBody := []
  signature := some "01"
  body :=
    { eventId := .str "event_1", type := .str "charge.approved"
      data := some
        { userId := .str "user", transactionId := .str "charge_1", amount := .int cents
          contextType := .str "credit_purchase", contextRef := .str "100_credits" } }

/-- A chargeback of as many cents. -/
def chargebackOf (cents : Int) : AuthorizeNetRequest where
  rawBody := []
  signature := some "01"
  body :=
    { eventId := .str "event_2", type := .str "chargeback.received"
      data := some
        { userId := .str "user", transactionId := .str "charge_1", amount := .int cents } }

/-- What the purchase leaves. -/
def playPurchase (cents : Int) (db : Data) : Except Err WebhookResponse × LocalState × Data :=
  playAlone "a" (handleWebhook constantHmac (purchaseFor cents)) db

/-- What the chargeback leaves. -/
def playDispute (cents : Int) (db : Data) : Except Err WebhookResponse × LocalState × Data :=
  playAlone "b" (handleWebhook constantHmac (chargebackOf cents)) db

theorem accepted_of_play {cents : Int} {db : Data} (hok : (playPurchase cents db).1 = .ok {})
    (hflawless : Flawless (playPurchase cents db).2.1.trace)
    (hnew : CreditsService.Unlogged (purchaseCreditKey "charge_1") db) :
    Accepted "charge_1" "user" db (playPurchase cents db).2.2 .AUTHORIZE_NET 100 cents :=
  .purchase rfl rfl rfl rfl rfl
    (show creditAmount (.str "100_credits") = some 100 by decide +kernel) rfl hnew
    (ends_playAlone hok) hflawless

theorem reverses_of_play {cents : Int} {charged db : Data} (hpos : 0 < cents)
    (hok : (playDispute cents db).1 = .ok {}) (hflawless : Flawless (playDispute cents db).2.1.trace)
    (hnew : ∀ d ∈ db .disputes, d.gatewayDisputeId ≠ gatewayDisputeKey "charge_1")
    (huntaken : CreditsService.Unlogged (chargebackCreditKey "charge_1") db) :
    Reverses .AUTHORIZE_NET "charge_1" "user" charged db (playDispute cents db).2.2
      (.chargeback constantHmac (chargebackOf cents) cents) :=
  .chargeback rfl rfl rfl rfl rfl rfl hpos hnew huntaken (ends_playAlone hok) hflawless

/-- The database after a purchase of 100 credits for this many cents. -/
def afterPurchase (cents : Int) : Database :=
  ⟨(playPurchase cents oneUser.rows).2.2, valid_playAlone oneUser.valid⟩

/-- At a cent a credit, the chargeback takes back what was granted. -/
theorem fullPrice_takesGranted :
    balanceOf "user" (afterPurchase 100).rows = 100 ∧
      (balanceOf "user" (afterPurchase 100).rows -
          balanceOf "user" (playDispute 100 (afterPurchase 100).rows).2.2 =
        balanceOf "user" (afterPurchase 100).rows - balanceOf "user" oneUser.rows ↔
          (100 : Int) = 100) := by
  have hcharge : Accepted "charge_1" "user" oneUser.rows (afterPurchase 100).rows .AUTHORIZE_NET
      100 100 :=
    accepted_of_play (by decide +kernel) (by decide +kernel) fun _ hrow => nomatch hrow
  have hnone : ¬HasCharge .AUTHORIZE_NET "charge_1" oneUser.rows := fun ⟨_, hrow, _⟩ => nomatch hrow
  have hreversal : Reverses .AUTHORIZE_NET "charge_1" "user" (afterPurchase 100).rows
      (afterPurchase 100).rows (playDispute 100 (afterPurchase 100).rows).2.2
      (.chargeback constantHmac (chargebackOf 100) 100) :=
    reverses_of_play (by decide) (by decide +kernel) (by decide +kernel) (by decide +kernel)
      (isLogged_eq_false_iff.mp (by decide +kernel))
  have hcovered : (100 : Int) ≤ balanceOf "user" (afterPurchase 100).rows := by decide +kernel
  exact ⟨by decide +kernel, reversal_takesGranted .AUTHORIZE_NET "charge_1" "user" oneUser
    (afterPurchase 100).rows (afterPurchase 100) _ 100 100
    (.chargeback constantHmac (chargebackOf 100) 100) hcharge hnone hreversal hcovered⟩

/-- At half a cent a credit, it takes back half of it. -/
theorem halfPrice_takesHalf :
    Accepted "charge_1" "user" oneUser.rows (afterPurchase 50).rows .AUTHORIZE_NET 100 50 ∧
      ¬HasCharge .AUTHORIZE_NET "charge_1" oneUser.rows ∧
      Reverses .AUTHORIZE_NET "charge_1" "user" (afterPurchase 50).rows (afterPurchase 50).rows
        (playDispute 50 (afterPurchase 50).rows).2.2 (.chargeback constantHmac (chargebackOf 50) 50) ∧
      50 ≤ balanceOf "user" (afterPurchase 50).rows ∧
      balanceOf "user" (afterPurchase 50).rows - balanceOf "user" oneUser.rows = 100 ∧
      balanceOf "user" (afterPurchase 50).rows -
        balanceOf "user" (playDispute 50 (afterPurchase 50).rows).2.2 = 50 := by
  have hcharge : Accepted "charge_1" "user" oneUser.rows (afterPurchase 50).rows .AUTHORIZE_NET
      100 50 :=
    accepted_of_play (by decide +kernel) (by decide +kernel) fun _ hrow => nomatch hrow
  have hnone : ¬HasCharge .AUTHORIZE_NET "charge_1" oneUser.rows := fun ⟨_, hrow, _⟩ => nomatch hrow
  have hreversal : Reverses .AUTHORIZE_NET "charge_1" "user" (afterPurchase 50).rows
      (afterPurchase 50).rows (playDispute 50 (afterPurchase 50).rows).2.2
      (.chargeback constantHmac (chargebackOf 50) 50) :=
    reverses_of_play (by decide) (by decide +kernel) (by decide +kernel) (by decide +kernel)
      (isLogged_eq_false_iff.mp (by decide +kernel))
  exact ⟨hcharge, hnone, hreversal, by decide +kernel, by decide +kernel, by decide +kernel⟩

end PaymentBilling
