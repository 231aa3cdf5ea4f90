import PaymentBilling.Safety.CreditLegs
import PaymentBilling.Safety.OutcomeAtomicity
import PaymentBilling.Safety.Skips
import PaymentBilling.Spec.ChargebackProgress

/-!
# Safety.WebhookAtomicity

What a delivery of either gateway leaves behind when it throws.

The transaction of an event takes everything back but the credits that were
moved in its middle: those are committed by then.  So a delivery is all or
nothing exactly if it cannot move credits.
-/

namespace PaymentBilling

open Relational Transact

/-- The event has no record yet. -/
def NewEvent (id : Js) (db : Data) : Prop :=
  ∃ i, id = .str i ∧ schema.find .processedWebhooks i db = none

namespace AuthorizeNetWebhookController

/-- The side effects of an event move credits, unless something fails first. -/
def MovesInside (type : Js) (data : AuthorizeNetData) (db : Data) : Prop :=
  match EventType.ofJs type with
  | .chargeApproved => isCreditPurchase data = true ∧ ∃ n, creditAmount data.contextRef = some n ∧
      CreditsService.Grants data.userId (.int n) (purchaseCreditKey data.transactionId.text) db
  | .chargeRefunded => isCreditPurchase data = true ∧ ∃ n, creditAmount data.contextRef = some n ∧
      CreditsService.Deducts data.userId (.int n) (refundedCreditKey data.transactionId.text) db
  | .chargebackReceived => TakesBack data db
  | _ => False

/-- A delivery that is signed and new, and whose side effects move credits. -/
structure Moves (config : AuthorizeNetConfig) (req : AuthorizeNetRequest) (db : Data) : Prop where
  signed : verifyHmac config.hmacSha256 req.rawBody req.signature config.secret = true
  named : req.body.eventId.truthy = true
  fresh : NewEvent req.body.eventId db
  inside : ∃ data, req.body.data = some data ∧ MovesInside req.body.type data db

end AuthorizeNetWebhookController

namespace SolanaConfirmationController

/-- A transaction that is deep enough and new, and whose credits can be granted. -/
structure Moves (setting : Option String) (event : SolanaEvent) (data : SolanaData) (db : Data) :
    Prop where
  body : event.data = some data
  named : event.eventId.truthy = true
  hashed : data.txHash.truthy = true
  deep : data.confirmations.lt (requiredConfirmations setting) = false
  fresh : NewEvent data.txHash db
  activates : data.plan.truthy = true → Activates data
  grants : CreditsService.Grants data.userId data.amount (chargeKey data.txHash) db

end SolanaConfirmationController

/-- The delivery moves credits, unless something fails first. -/
def GatewayCall.MovesCredits : GatewayCall → Data → Prop
  | card config req, db => AuthorizeNetWebhookController.Moves config req db
  | chain setting event, db => ∃ data, SolanaConfirmationController.Moves setting event data db

/-! ## A transaction that fails -/

/-- A failure takes everything back, unless `φ` is so. -/
def KeptOr {α : Type} (φ : Prop) (db : Data) : Post Stmt Data RowWrite RowLock Err α :=
  fun r _ db' => ∀ e, r = .error e → db' = db ∨ φ

section Kept

variable {c : LocalState} {db : Data}

/-- A program that only gives up where `p` fails. -/
theorem wp_swallowed {α : Type} {p : Action α} {φ : Prop}
    (h : soloProtocol.wp p (fun _ c' db' => c'.stack = c.stack ∧ (db' = db ∨ φ)) c db) :
    soloProtocol.wp (tryCatch (p >>= fun _ => pure ()) fun _ => pure ())
      (fun r c' db' => (∀ b, r = .ok b → c'.stack = c.stack) ∧ (db' = db ∨ φ)) c db := by
  rw [Protocol.wp_tryCatch, Protocol.wp_bind]
  refine Protocol.wp_mono _ (fun r c' db' hr => ?_) h
  cases r with
  | ok _ => exact ⟨fun _ _ => hr.1, hr.2⟩
  | error _ => exact ⟨fun _ _ => hr.1, hr.2⟩

namespace AuthorizeNetWebhookController

variable {data : AuthorizeNetData} {trace : List (Event Stmt Err)}

/-- An event that runs in its transaction only. -/
theorem wp_plain_kept {id type : Js} {source : String} {rest : Action Unit} {φ : Prop}
    (h : Plain rest) : soloProtocol.wp (transaction (query (.processedWebhookCreate id source type) >>=
      fun _ => rest)) (KeptOr φ db) ⟨[], trace⟩ db :=
  Protocol.wp_mono _ (fun _ _ _ hr e he => .inl (hr e he))
    (Protocol.wp_transaction_plain (plain_bind (plain_query _) fun _ => h))

theorem wp_approved_kept {event : AuthorizeNetEvent} :
    soloProtocol.wp (transaction (query (.processedWebhookCreate event.eventId "authorize_net"
        event.type) >>= fun _ => chargeApproved data))
      (KeptOr (isCreditPurchase data = true ∧ ∃ n, creditAmount data.contextRef = some n ∧
        CreditsService.Grants data.userId (.int n) (purchaseCreditKey data.transactionId.text) db) db)
      ⟨[], trace⟩ db := by
  cases hpurchase : isCreditPurchase data with
  | false =>
      refine wp_plain_kept ?_
      rw [chargeApproved, hpurchase, if_neg Bool.false_ne_true]
      exact plain_recordCharge data _
  | true =>
      cases hamount : creditAmount data.contextRef with
      | none =>
          refine wp_plain_kept ?_
          rw [chargeApproved, hpurchase, if_pos rfl, hamount]
          exact plain_pure ()
      | some n =>
          rw [chargeApproved, hpurchase, if_pos rfl, hamount]
          refine Protocol.wp_mono _ (fun r c' db' hr e he => (hr e he).imp_right ?_)
            (Protocol.wp_transaction_kept (R := fun _ => True) (M := fun _ => CreditsService.Grants
              data.userId (.int n) (purchaseCreditKey data.transactionId.text) db) (plain_query _)
              (Protocol.wp_of_always fun _ _ _ _ _ => trivial)
              (fun _ c₁ _ => Protocol.wp_mono _ (fun _ _ _ hr => ⟨fun _ _ => hr.1, hr.2⟩)
                CreditsService.wp_grantCredits_kept) fun _ _ => plain_recordCharge data _)
          intro hgrants
          obtain ⟨_, _, h⟩ := hgrants
          exact ⟨rfl, n, rfl, h⟩

theorem wp_refunded_kept {event : AuthorizeNetEvent} :
    soloProtocol.wp (transaction (query (.processedWebhookCreate event.eventId "authorize_net"
        event.type) >>= fun _ => chargeRefunded data))
      (KeptOr (isCreditPurchase data = true ∧ ∃ n, creditAmount data.contextRef = some n ∧
        CreditsService.Deducts data.userId (.int n) (refundedCreditKey data.transactionId.text) db) db)
      ⟨[], trace⟩ db := by
  cases hpurchase : isCreditPurchase data with
  | false =>
      refine wp_plain_kept ?_
      rw [chargeRefunded, hpurchase, if_neg Bool.false_ne_true]
      exact plain_pure ()
  | true =>
      cases hamount : creditAmount data.contextRef with
      | none =>
          refine wp_plain_kept ?_
          rw [chargeRefunded, hpurchase, if_pos rfl, hamount]
          exact plain_pure ()
      | some n =>
          rw [chargeRefunded, hpurchase, if_pos rfl, hamount]
          show soloProtocol.wp (transaction (query _ >>= fun _ => tryCatch _ _)) _ _ _
          rw [← Prog.bind_pure (tryCatch _ _)]
          refine Protocol.wp_mono _ (fun r c' db' hr e he => (hr e he).imp_right ?_)
            (Protocol.wp_transaction_kept (R := fun _ => True) (M := fun _ => CreditsService.Deducts
              data.userId (.int n) (refundedCreditKey data.transactionId.text) db) (plain_query _)
              (Protocol.wp_of_always fun _ _ _ _ _ => trivial)
              (fun _ c₁ _ => wp_swallowed (CreditsService.wp_deductCredits_kept
                (append_ne (by decide)))) fun _ b => plain_pure b)
          exact fun ⟨_, _, h⟩ => ⟨rfl, n, rfl, h⟩

theorem wp_chargeback_kept {event : AuthorizeNetEvent} (hv : schema.Valid db)
    (htype : event.type = .str "chargeback.received") (hdata : event.data = some data) :
    soloProtocol.wp (recordAndApply event) (KeptOr (TakesBack data db) db) ⟨[], trace⟩ db := by
  have hplain : Plain (query (.processedWebhookCreate event.eventId "authorize_net" event.type) >>=
      fun _ => openReversal data) := plain_bind (plain_query _) fun _ => plain_openReversal data
  rw [recordAndApply_eq htype hdata, ← Prog.bind_pure (query _ >>= _ >>= takeBack data), Prog.bind_assoc]
  refine Protocol.wp_mono _ (fun r c' db' hr e he => (hr e he).imp_right fun hmoved => ?_)
    (Protocol.wp_transaction_kept (R := fun r => (∀ d, r = some d → DisputeReady data db) ∧
        ∃ ws, locking.fitsAll ws db ∧ (deliveryEffect data).rel r ws db)
      (M := fun r => ∃ d, r = some d ∧ CreditsService.Deducts data.userId data.amount
        (chargebackCreditKey data.transactionId.text) db) hplain
      (Protocol.wp_mono _ (fun r c₁ db₁ hr a ha => ⟨fun d hd => hr.1 d (by rw [ha, hd]), hr.2 a ha⟩)
        (Protocol.wp_and _ wp_delivery_ready (Protocol.wp_added hv .nil hplain
          (does_delivery soloProtocol event data))))
      (fun r c₁ _ => ?_) fun _ b => plain_pure b)
  · cases r with
    | none => exact ⟨fun _ _ => rfl, .inl rfl⟩
    | some d =>
        refine Protocol.wp_mono _ (fun r c' db' hr => ⟨hr.1, hr.2.imp_right fun h => ⟨d, rfl, h⟩⟩)
          (wp_swallowed (CreditsService.wp_deductCredits_kept (append_ne (by decide))))
  · obtain ⟨_, ⟨hready, ws, hfits, hx⟩, d, rfl, hcredits⟩ := hmoved
    exact takesBack_of_delivered hv hfits hx (hready d rfl) hcredits

/-- The transaction of an event takes everything back when it fails, unless it
can move credits. -/
theorem wp_recordAndApply_kept {event : AuthorizeNetEvent} (hv : schema.Valid db) :
    soloProtocol.wp (recordAndApply event) (KeptOr (∃ data, event.data = some data ∧
      MovesInside event.type data db) db) ⟨[], trace⟩ db := by
  have hplain : Plain (applyEvent event.type event.data) → soloProtocol.wp (recordAndApply event)
      (KeptOr (∃ data, event.data = some data ∧ MovesInside event.type data db) db) ⟨[], trace⟩ db :=
    wp_plain_kept
  cases hdata : event.data with
  | none =>
      rw [hdata] at hplain
      refine hplain ?_
      unfold applyEvent
      split
      · exact plain_pure ()
      · exact plain_throw _
  | some data =>
      have hmoves : ∀ {φ : Prop}, (φ → MovesInside event.type data db) →
          ∀ r c' db', KeptOr φ db r c' db' → KeptOr (α := Unit) (∃ data', some data = some data' ∧
            MovesInside event.type data' db) db r c' db' :=
        fun hφ r c' db' hr e he => (hr e he).imp_right fun h => ⟨data, rfl, hφ h⟩
      have hcancel : Plain (SubscriptionsService.cancelImmediately data.userId >>= fun _ => pure ()) :=
        plain_bind (SubscriptionsService.plain_cancelImmediately _) fun _ => plain_pure ()
      rw [hdata] at hplain
      cases htype : EventType.ofJs event.type with
      | subscriptionCreated => exact hplain (by rw [applyEvent, htype]; exact plain_subscriptionActivated data)
      | subscriptionRenewed => exact hplain (by rw [applyEvent, htype]; exact plain_subscriptionActivated data)
      | subscriptionCanceled => exact hplain (by rw [applyEvent, htype]; exact hcancel)
      | chargeFailed => exact hplain (by rw [applyEvent, htype]; exact hcancel)
      | unhandled => exact hplain (by rw [applyEvent, htype]; exact plain_pure ())
      | chargeApproved =>
          have happly : applyEvent event.type (some data) = chargeApproved data := by
            rw [applyEvent, htype]
          rw [recordAndApply, hdata, happly]
          exact Protocol.wp_mono _ (hmoves fun h => by simp only [MovesInside, htype]; exact h)
            wp_approved_kept
      | chargeRefunded =>
          have happly : applyEvent event.type (some data) = chargeRefunded data := by
            rw [applyEvent, htype]
          rw [recordAndApply, hdata, happly]
          exact Protocol.wp_mono _ (hmoves fun h => by simp only [MovesInside, htype]; exact h)
            wp_refunded_kept
      | chargebackReceived =>
          exact Protocol.wp_mono _ (hmoves fun h => by simp only [MovesInside, htype]; exact h)
            (wp_chargeback_kept hv (EventType.eq_of_chargeback htype) hdata)

end AuthorizeNetWebhookController

namespace SolanaConfirmationController

variable {data : SolanaData} {t : Tx RowWrite RowLock} {ts : List (Tx RowWrite RowLock)}
  {trace : List (Event Stmt Err)}

/-- A subscription that goes through could be written. -/
theorem wp_activateFirst : soloProtocol.wp (activateFirst data)
    (fun r _ _ => ∀ a, r = .ok a → data.plan.truthy = true → Activates data) ⟨t :: ts, trace⟩ db := by
  unfold activateFirst
  split
  · unfold SubscriptionsService.createOrUpdateFromGateway
    rw [Prog.bind_assoc, Protocol.wp_bind]
    refine Protocol.wp_exec_tx _ (fun _ _ _ _ h => by cases h) fun env sub ws db₁ _ hx => ?_
    obtain ⟨_, plan, _, _, -, hplan, -⟩ := exec_subscriptionUpsert hx
    rw [Protocol.bindPost_ok, Prog.bind_assoc, Protocol.wp_bind]
    refine Protocol.wp_exec_tx _ (fun _ _ _ _ h => by cases h) fun env gateway ws₂ db₂ _ hx₂ => ?_
    obtain ⟨id, _, hid, -⟩ := exec_gatewaySubscriptionUpsert hx₂
    exact fun _ _ _ => ⟨⟨plan, hplan⟩, id, hid⟩
  · next hfalsy => exact fun _ _ htruthy => (hfalsy htruthy).elim

/-- The transaction of a confirmation takes everything back when it fails, unless
it can grant credits. -/
theorem wp_recordAndApply_kept :
    soloProtocol.wp (recordAndApply data) (KeptOr ((data.plan.truthy = true → Activates data) ∧
      CreditsService.Grants data.userId data.amount (chargeKey data.txHash) db) db) ⟨[], trace⟩ db := by
  rw [recordAndApply, applyConfirmation_first, ← Prog.bind_assoc]
  refine Protocol.wp_mono _ (fun r c' db' hr e he => (hr e he).imp_right fun hmoved => ?_)
    (Protocol.wp_transaction_kept (R := fun _ => data.plan.truthy = true → Activates data)
      (M := fun _ => CreditsService.Grants data.userId data.amount (chargeKey data.txHash) db)
      (plain_bind (plain_query _) fun _ => plain_activateFirst data) ?_
      (fun _ c₁ _ => Protocol.wp_mono _ (fun _ _ _ hr => ⟨fun _ _ => hr.1, hr.2⟩)
        CreditsService.wp_grantCredits_kept)
      fun _ _ => plain_bind (plain_query _) fun _ => plain_pure ())
  · rw [Protocol.wp_bind]
    exact Protocol.wp_exec_tx _ (fun _ _ _ _ h => by cases h) fun env row ws db₁ _ _ => wp_activateFirst
  · exact hmoved.elim fun _ h => h

end SolanaConfirmationController

/-- A delivery takes everything back when it throws, unless it can move credits. -/
theorem wp_delivery_kept (call : GatewayCall) (hv : schema.Valid db) :
    soloProtocol.wp call.run (KeptOr (call.MovesCredits db) db) {} db := by
  cases call with
  | card config req =>
      refine (Protocol.wp_bind ..).mpr (Protocol.wp_mono _ (Q := KeptOr (GatewayCall.MovesCredits
        (.card config req) db) db) (fun r c' db' hr => ?_) ?_)
      · cases r with
        | ok _ => exact nofun
        | error e => exact fun _ _ => hr e rfl
      · refine AuthorizeNetWebhookController.wp_handleWebhook_cases _ (fun _ _ _ => .inl rfl)
          (fun _ _ _ hs _ _ => .inl hs.env) (fun _ _ _ _ _ _ _ => nofun)
          fun id db₁ hs₁ hsigned hnamed htype hid hnew => ?_
        obtain rfl : db₁ = db := hs₁.env
        refine Protocol.wp_mono _ (fun r c' db' hr => ?_)
          (AuthorizeNetWebhookController.wp_recordAndApply_kept hv)
        cases r with
        | ok _ => exact nofun
        | error e =>
            simp only
            split
            · exact nofun
            · exact fun _ _ => (hr e rfl).imp_right fun h => ⟨hsigned, hnamed, ⟨id, hid, hnew⟩, h⟩
  | chain setting event =>
      refine (Protocol.wp_bind ..).mpr (Protocol.wp_mono _ (Q := KeptOr (GatewayCall.MovesCredits
        (.chain setting event) db) db) (fun r c' db' hr => ?_) ?_)
      · cases r with
        | ok _ => exact nofun
        | error e => exact fun _ _ => hr e rfl
      · refine SolanaConfirmationController.wp_handleConfirmation_cases _ (fun _ _ _ => .inl rfl)
          (fun _ _ _ hs _ _ => .inl hs.env) (fun _ => nofun) (fun _ _ _ _ _ _ _ _ _ => nofun)
          fun data id db₁ hdata hs₁ hnamed hhashed hdeep hid hnew => ?_
        obtain rfl : db₁ = db := hs₁.env
        refine Protocol.wp_mono _ (fun r c' db' hr => ?_)
          SolanaConfirmationController.wp_recordAndApply_kept
        cases r with
        | ok _ => exact nofun
        | error e =>
            simp only
            split
            · exact nofun
            · exact fun _ _ => (hr e rfl).imp_right fun h =>
                ⟨data, hdata, hnamed, hhashed, hdeep, ⟨id, hid, hnew⟩, h.1, h.2⟩

end Kept

/-! ## A failure after the credits -/

section Moved

variable {W : Env → Prop} {db : Data} {trace : List (Event Stmt Err)}

/-- The program can be made to fail after it has changed the database. -/
def FailsMoved {α : Type} (p : Action α) (trace : List (Event Stmt Err)) (db : Data) : Prop :=
  ∃ c' db', postgres.Ends anyFault p ⟨[], trace⟩ db (.error (postgres.fault "")) c' db' ∧ db' ≠ db

/-- A transaction that moves credits in its middle can. -/
theorem failsMoved_of_goes {α β γ : Type} {T : List Table} {e : Env} {p : Action α}
    {m : α → Action β} {q : α → β → Action γ} {R : α → Prop} {key : String} (hw : W e)
    (hapart : ∀ t ∈ T, t ∉ creditTables) (hp : postgres.Goes (LocksOf T) W p (fun a _ => R a) db)
    (hm : ∀ a c₁, R a → FreeOf creditTables c₁.stack → postgres.Sure W (m a) (fun r _ db' =>
      (∃ b, r = .ok b) ∧ CreditsService.Logged key db') c₁ db)
    (hq : ∀ a b, postgres.Failing (q a b)) (hnew : CreditsService.Unlogged key db) :
    FailsMoved (transaction (p >>= fun a => m a >>= q a)) trace db := by
  obtain ⟨c', db', hends, hlogged⟩ := Engine.ends_transaction_lasts (c := ⟨[], trace⟩) hw (by simp) hp
    (fun a c₁ hr hheld => hm a c₁ hr (freeOf_of_locks hapart fun l hl =>
      (hheld l hl).resolve_right (by simp))) hq
  refine ⟨c', db', hends, ?_⟩
  rintro rfl
  exact CreditsService.not_unlogged hlogged hnew

/-- What is sure to return does so when its error would have been swallowed. -/
theorem sure_swallowed {α : Type} {p : Action α} {A : Data → Prop} {c : LocalState}
    (h : postgres.Sure W p (fun r _ db' => (∃ a, r = .ok a) ∧ A db') c db) :
    postgres.Sure W (tryCatch (p >>= fun _ => pure ()) fun _ => pure ())
      (fun r _ db' => (∃ b, r = .ok b) ∧ A db') c db := by
  refine Engine.sure_tryCatch (Engine.sure_bind (h.mono fun r c' db' hr => ?_))
  obtain ⟨⟨a, rfl⟩, ha⟩ := hr
  exact ⟨⟨(), rfl⟩, ha⟩

/-- The record of an event that is new. -/
theorem goes_newEvent {id type source : String} (hnew : schema.find .processedWebhooks id db = none) :
    postgres.Goes (LocksOf recordTables) W
      (query (.processedWebhookCreate (.str id) source (.str type))) (fun _ _ => True) db :=
  goes_query (by simp [WritesIn, Stmt.writes, recordTables]) rfl
    (fun env _ => processedWebhookCreate_ok hnew) fun _ _ _ _ _ => trivial

namespace AuthorizeNetWebhookController

variable {data : AuthorizeNetData} {event : AuthorizeNetEvent} {id type : String}

/-- Whatever else is recorded can fail. -/
theorem failing_recordCharge (data : AuthorizeNetData) (plan : Js) :
    postgres.Failing (recordCharge data plan) := by
  rw [recordCharge]
  split
  · exact Engine.failing_exec_bind _ _
  · exact Engine.failing_pure ()

theorem failsMoved_approved (hv : schema.Valid db)
    (hnew : schema.find .processedWebhooks id db = none) {n : Int} (hpurchase : isCreditPurchase data = true)
    (hamount : creditAmount data.contextRef = some n) (h : CreditsService.Grants data.userId (.int n)
      (purchaseCreditKey data.transactionId.text) db) :
    FailsMoved (transaction (query (.processedWebhookCreate (.str id) "authorize_net" (.str type)) >>=
      fun _ => chargeApproved data)) trace db := by
  rw [chargeApproved, hpurchase, if_pos rfl, hamount]
  exact failsMoved_of_goes (W := fun _ => True) (e := Env.ordinary "") trivial (by decide)
    (goes_newEvent hnew) (fun _ c₁ _ hfree => CreditsService.sure_grants hv hfree h)
    (fun _ _ => failing_recordCharge _ _) h.unlogged

theorem failsMoved_refunded (hv : schema.Valid db)
    (hnew : schema.find .processedWebhooks id db = none) {n : Int} (hpurchase : isCreditPurchase data = true)
    (hamount : creditAmount data.contextRef = some n) (h : CreditsService.Deducts data.userId (.int n)
      (refundedCreditKey data.transactionId.text) db) :
    FailsMoved (transaction (query (.processedWebhookCreate (.str id) "authorize_net" (.str type)) >>=
      fun _ => chargeRefunded data)) trace db := by
  rw [chargeRefunded, hpurchase, if_pos rfl, hamount]
  show FailsMoved (transaction (query _ >>= fun _ => tryCatch _ _)) _ _
  rw [← Prog.bind_pure (tryCatch _ _)]
  exact failsMoved_of_goes (W := fun _ => True) (e := Env.ordinary "") trivial (by decide)
    (goes_newEvent hnew) (fun _ c₁ _ hfree => sure_swallowed
      (CreditsService.sure_deducts hv hfree (append_ne (by decide)) h))
    (fun _ b => Engine.failing_pure b) h.unlogged

theorem failsMoved_chargeback (hv : schema.Valid db)
    (hnew : schema.find .processedWebhooks id db = none) (hid : event.eventId = .str id)
    (htype : event.type = .str "chargeback.received") (hdata : event.data = some data)
    (h : TakesBack data db) : FailsMoved (recordAndApply event) trace db := by
  rw [recordAndApply_eq htype hdata, ← Prog.bind_pure (query _ >>= _ >>= takeBack data), Prog.bind_assoc,
    hid, htype]
  refine failsMoved_of_goes (W := fun _ => True) (e := Env.ordinary "") trivial (by decide)
    (goes_delivery hv hnew h) (fun r c₁ hr hfree => ?_) (fun _ b => Engine.failing_pure b)
    h.credits.unlogged
  obtain ⟨d, rfl⟩ := hr
  exact sure_swallowed (CreditsService.sure_deducts hv hfree (append_ne (by decide)) h.credits)

/-- The transaction of an event that moves credits can fail after it has. -/
theorem failsMoved_recordAndApply (hv : schema.Valid db)
    (hnew : schema.find .processedWebhooks id db = none) (hid : event.eventId = .str id)
    (hdata : event.data = some data) (h : MovesInside event.type data db) :
    event.type.truthy = true ∧ ∀ trace, FailsMoved (recordAndApply event) trace db := by
  have htext : ∀ {type}, EventType.ofJs event.type = type → type ≠ .unhandled →
      ∃ text, event.type = .str text ∧ text ≠ "" := by
    intro type htype hhandled
    cases hjs : event.type with
    | str text =>
        refine ⟨text, rfl, ?_⟩
        rintro rfl
        rw [hjs] at htype
        exact hhandled htype.symm
    | _ =>
        rw [hjs] at htype
        exact (hhandled htype.symm).elim
  have happly : ∀ {type}, EventType.ofJs event.type = type →
      applyEvent event.type event.data = match type with
        | .chargeApproved => chargeApproved data
        | .chargeRefunded => chargeRefunded data
        | _ => applyEvent event.type event.data := by
    intro type htype
    rw [applyEvent, hdata, htype]
    cases type <;> rfl
  cases htype : EventType.ofJs event.type with
  | chargeApproved =>
      simp only [MovesInside, htype] at h
      obtain ⟨hpurchase, n, hamount, hgrants⟩ := h
      obtain ⟨text, hevent, hne⟩ := htext htype (by decide)
      refine ⟨by rw [hevent]; simp [Js.truthy, hne], fun trace => ?_⟩
      rw [recordAndApply, happly htype, hid, hevent]
      exact failsMoved_approved hv hnew hpurchase hamount hgrants
  | chargeRefunded =>
      simp only [MovesInside, htype] at h
      obtain ⟨hpurchase, n, hamount, hdeducts⟩ := h
      obtain ⟨text, hevent, hne⟩ := htext htype (by decide)
      refine ⟨by rw [hevent]; simp [Js.truthy, hne], fun trace => ?_⟩
      rw [recordAndApply, happly htype, hid, hevent]
      exact failsMoved_refunded hv hnew hpurchase hamount hdeducts
  | chargebackReceived =>
      simp only [MovesInside, htype] at h
      have hevent := EventType.eq_of_chargeback htype
      exact ⟨by rw [hevent]; rfl, fun trace => failsMoved_chargeback hv hnew hid hevent hdata h⟩
  | _ => simp only [MovesInside, htype] at h

end AuthorizeNetWebhookController

/-- The transaction of a confirmation that grants credits can fail after it has. -/
theorem SolanaConfirmationController.failsMoved_recordAndApply {data : SolanaData} {id : String}
    (hv : schema.Valid db) (hnew : schema.find .processedWebhooks id db = none)
    (hid : data.txHash = .str id) (hactivates : data.plan.truthy = true → Activates data)
    (h : CreditsService.Grants data.userId data.amount (chargeKey data.txHash) db) :
    FailsMoved (recordAndApply data) trace db := by
  obtain ⟨user, huser, hexists⟩ := h.hasUser hv
  rw [recordAndApply, applyConfirmation_first, ← Prog.bind_assoc, hid]
  exact failsMoved_of_goes (W := Dated (Env.ordinary "").parseDate) (e := Env.ordinary "") rfl
    (by decide) (goes_record hv hnew fun v hv' hle => goes_activateFirst hv' huser
      (exists_find_mono hle hexists) hactivates)
    (fun _ c₁ _ hfree => CreditsService.sure_grants hv hfree h)
    (fun _ _ => Engine.failing_exec_bind _ _) h.unlogged

/-- A delivery that moves credits can throw after it has. -/
theorem failsMoved_delivery {call : GatewayCall} (hv : schema.Valid db) (h : call.MovesCredits db) :
    FailsMoved call.run [] db := by
  cases call with
  | card config req =>
      obtain ⟨hsigned, hnamed, ⟨id, hid, hnew⟩, data, hdata, hinside⟩ := h
      obtain ⟨htype, hmoved⟩ :=
        AuthorizeNetWebhookController.failsMoved_recordAndApply hv hnew hid hdata hinside
      obtain ⟨c', db', hends, hne⟩ :=
        hmoved [.stmt (.processedWebhookFindUnique req.body.eventId) (.ok none)]
      refine ⟨c', db', Engine.ends_bind.mpr (.inr ⟨_, rfl, ?_⟩), hne⟩
      have hpayload : (!req.body.eventId.truthy || !req.body.type.truthy) = false := by
        rw [hnamed, htype]
        rfl
      have hread : postgres.exec (.processedWebhookFindUnique req.body.eventId) (.ordinary "") db =
          .ok (none, []) := by
        rw [hid, processedWebhookFindUnique_ok, hnew]
      rw [AuthorizeNetWebhookController.handleWebhook, hsigned, hpayload, Bool.not_true,
        if_neg Bool.false_ne_true, if_neg Bool.false_ne_true]
      refine Engine.ends_read_bind hread (Engine.ends_tryCatch.mpr (.inr ⟨_, _, _,
        Engine.ends_bind.mpr (.inr ⟨_, rfl, hends⟩), ?_⟩))
      exact ⟨rfl, rfl, rfl⟩
  | chain setting event =>
      obtain ⟨data, hdata, hnamed, hhashed, hdeep, ⟨id, hid, hnew⟩, hactivates, hgrants⟩ := h
      have hmoved : ∀ trace, FailsMoved (SolanaConfirmationController.recordAndApply data) trace db :=
        fun _ => SolanaConfirmationController.failsMoved_recordAndApply hv hnew hid hactivates hgrants
      obtain ⟨c', db', hends, hne⟩ :=
        hmoved [.stmt (.processedWebhookFindUnique data.txHash) (.ok none)]
      refine ⟨c', db', Engine.ends_bind.mpr (.inr ⟨_, rfl, ?_⟩), hne⟩
      have hpayload : (!event.eventId.truthy || !data.txHash.truthy) = false := by
        rw [hnamed, hhashed]
        rfl
      have hread : postgres.exec (.processedWebhookFindUnique data.txHash) (.ordinary "") db =
          .ok (none, []) := by
        rw [hid, processedWebhookFindUnique_ok, hnew]
      have hhandle : SolanaConfirmationController.handleConfirmation setting event =
          SolanaConfirmationController.settle data := by
        rw [SolanaConfirmationController.handleConfirmation, hdata]
        simp only [hpayload, hdeep, Bool.false_eq_true, if_false]
      rw [hhandle]
      refine Engine.ends_read_bind hread (Engine.ends_tryCatch.mpr (.inr ⟨_, _, _,
        Engine.ends_bind.mpr (.inr ⟨_, rfl, hends⟩), ?_⟩))
      exact ⟨rfl, rfl, rfl⟩

end Moved

/-! ## The condition -/

end PaymentBilling
