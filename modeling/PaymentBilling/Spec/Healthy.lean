import PaymentBilling.Spec.ChargeOutcomes
import PaymentBilling.Store.Progress
import PaymentBilling.Transact.Sure

/-!
# Spec.Healthy

What the parts of the services do when nobody else is at work and nothing
fails: the condition under which each of them goes through, and what is then
sure to be there.
-/

namespace PaymentBilling

open Relational Transact

/-- A program that runs alone leaves the tables as they were that it does not
write. -/
theorem wp_sameTables {α : Type} {T : List Table} {p : Action α} {c : LocalState} {db : Data}
    (honly : Only (WritesIn T) p 0) :
    soloProtocol.wp p (fun _ _ db' => ∀ t ∉ T, db' t = db t) c db := by
  refine soloProtocol.wp_of_knowing (A := fun db' => ∀ t ∉ T, db' t = db t)
    (fun _ _ _ _ hs hsame => by rw [hs.env]; exact hsame) ⟨[], rfl⟩ (fun _ _ => rfl) ?_
  refine Protocol.wp_mono _ (fun _ _ _ _ hsame => hsame) (Protocol.wp_only _
    (W := fun w => w.table ∈ T) (fun _ s hs env v b ws hx => table_mem_of_writesIn _ s hs env v b ws hx)
    (fun _ db₁ ws _ hw _ hsame _ => ⟨⟨trivial, fun t ht => ?_⟩, trivial⟩) honly)
  rw [applyAll_other fun w hin he => ht (by rw [← he]; exact hw w hin)]
  exact hsame.2 t ht

theorem same_of_ends {α : Type} {F : Faults Stmt RowWrite RowLock Err} {T : List Table} {t : Table}
    {p : Action α} {r : Except Err α} {c' : LocalState} {db db' : Data} (hv : schema.Valid db)
    (honly : Only (WritesIn T) p 0) (ht : t ∉ T) (hends : postgres.Ends F p {} db r c' db') :
    db' t = db t :=
  (soloProtocol.ends_of_wp hv trivial .nil (wp_sameTables honly) hends).1 t ht

/-- The locks of some tables. -/
def LocksOf (T : List Table) (l : RowLock) : Prop := l.table ∈ T

section Healthy

variable {W : Env → Prop} {T : List Table} {v : Data}

/-- No lock of the enclosing transactions is on one of the tables. -/
def FreeOf (T : List Table) (stack : List (Tx RowWrite RowLock)) : Prop :=
  ∀ l ∈ heldBy stack, ¬LocksOf T l

/-- What is referred to stays there. -/
theorem exists_find_mono {db db' : Data} {t : Table} {i : String} (hle : schema.le db db')
    (h : ∃ row, schema.find t i db = some row) : ∃ row, schema.find t i db' = some row := by
  obtain ⟨row, hrow⟩ := h
  obtain ⟨row', hrow', -⟩ := hle t i row hrow
  exact ⟨row', hrow'⟩

/-- A statement that takes the locks of its write only. -/
theorem goes_query {α : Type} {s : Stmt α} {Q : α → Data → Prop} (hwrites : WritesIn T α s)
    (hclaims : postgres.claims s v = [])
    (hok : ∀ env, W env → ∃ r ws, postgres.exec s env v = .ok (r, ws))
    (hq : ∀ env r ws, W env → postgres.exec s env v = .ok (r, ws) → Q r (postgres.applyAll ws v)) :
    postgres.Goes (LocksOf T) W (query s) Q v := by
  refine Engine.goes_exec hok fun env r ws hw hx => ⟨fun l hl => ?_, hq env r ws hw hx⟩
  rw [Engine.needs, hclaims, List.nil_append] at hl
  obtain ⟨w, hwin, hl⟩ := List.mem_flatMap.mp hl
  have htable : l.table = w.table := Schema.table_of_locks schema hl
  rw [LocksOf, htable]
  exact table_mem_of_writesIn _ s hwrites env v r ws hx w hwin

/-! ## Credits -/

namespace CreditsService

/-- The grant fits, or was made before. -/
def Grantable (user : String) (n : Int) (key : String) (db : Data) : Prop :=
  Logged key db ∨ (inInt32 n = true ∧ CreditsFit user n db)

/-- The body of a grant goes through, and the grant is logged. -/
theorem goes_grant {user : String} {n : Int} {type : CreditTransactionType}
    {description key : String} {metadata : Metadata} (hv : schema.Valid v)
    (h : Grantable user n key v) :
    postgres.Goes (LocksOf creditTables) W (do
      match ← query (.creditTransactionFindFirst key) with
      | some existing => shortCircuit (.str user) existing
      | none =>
        let credits ← query (.creditsUpsert (.str user) (.int n))
        let transaction ← query (.creditTransactionCreate
          { creditsId := credits.id, amount := .int n, type, description
            idempotencyKey := some key, metadata })
        return { balance := credits.balance, transactionId := transaction.id : CreditsResult })
      (fun _ v' => Logged key v') v := by
  refine Engine.goes_bind (goes_query (by simp [WritesIn, Stmt.writes]) rfl
    (fun env _ => ⟨_, _, creditTransactionFindFirst_ok key⟩) fun env found ws _ hx => ?_)
  obtain ⟨rfl, hfound⟩ := exec_creditTransactionFindFirst hx
  cases found with
  | some existing =>
      have hlogged : Logged key v := ⟨existing, List.mem_of_find?_eq_some hfound.symm, by
        simpa using List.find?_some hfound.symm⟩
      refine Engine.goes_bind (goes_query (by simp [WritesIn, Stmt.writes]) rfl
        (fun env _ => ⟨_, _, exec_ok.mpr ⟨none, rfl, rfl, by simp⟩⟩) fun env row ws _ hx => ?_)
      rw [exec_creditsFindUnique hx]
      exact Engine.goes_pure hlogged
  | none =>
      have hnew : ¬Logged key v := by
        rintro ⟨row, hrow, hk⟩
        simpa [hk] using List.find?_eq_none.mp hfound.symm row hrow
      obtain ⟨hn, hfit⟩ := h.resolve_left hnew
      show postgres.Goes _ W (query (.creditsUpsert (.str user) (.int n)) >>= _) _ v
      refine Engine.goes_bind (goes_query (by simp [WritesIn, Stmt.writes, creditTables]) rfl
        (fun env _ => creditsUpsert_ok hv hn hfit) fun env row ws _ hx => ?_)
      have hfits := locking.fitsAll_of_exec hv hx
      have hrow : ∃ r, schema.find .credits row.id (postgres.applyAll ws v) = some r := by
        obtain ⟨user', n', -, -, -, hcase⟩ := exec_creditsUpsert hx
        rcases hcase with ⟨old, hf, hid, -, rfl⟩ | ⟨-, -, rfl⟩
        · rw [hid]
          exact exists_find_mono (locking.le_applyAll _ v)
            ⟨old, hv.find_of_mem (Schema.mem_of_findBy hf)⟩
        · have hvalid : schema.Valid (postgres.applyAll [.insert .credits row] v) :=
            locking.valid_applyAll hfits hv
          refine ⟨row, hvalid.find_of_mem ?_⟩
          rw [applyAll_single, Schema.apply_insert_self]
          simp
      refine Engine.goes_bind (goes_query (by simp [WritesIn, Stmt.writes, creditTables]) rfl
        (fun env _ => creditTransactionCreate_ok rfl hn hrow) fun env log ws' _ hx' => ?_)
      obtain ⟨m, -, rfl, hlog⟩ := exec_creditTransactionCreate hx'
      refine Engine.goes_pure ⟨log, ?_, by rw [hlog]⟩
      rw [applyAll_single, Schema.apply_insert_self]
      simp

/-- A grant is sure to be made when it fits. -/
theorem sure_grantCredits {user : String} {n : Int} {type : CreditTransactionType}
    {description key : String} {metadata : Metadata} {c : LocalState} {db : Data}
    (hv : schema.Valid db) (hfree : FreeOf creditTables c.stack) (hpos : 0 < n)
    (h : Grantable user n key db) :
    postgres.Sure W (grantCredits (.str user) (.int n) type description key metadata)
      (fun r c' db' => ∃ a, r = .ok a ∧ c'.stack = c.stack ∧ Logged key db') c db := by
  have hnot : (Js.int n).le (.int 0) = false := by
    rw [Js.le_int, decide_eq_false_iff_not]
    omega
  rw [grantCredits, hnot, if_neg Bool.false_ne_true]
  exact (goes_grant hv h).sure_transaction hfree

/-- What is granted to a user fits. -/
theorem creditsFit_of_change {user : String} {n : Int} {key : Option String} {ws : List RowWrite}
    {db : Data} (h : CreditChange user n key ws db) (hv : schema.Valid db)
    (hfits : locking.fitsAll ws db) : CreditsFit user n db := by
  unfold CreditsFit
  cases h with
  | move row log hrow huser hlog hcover =>
      have hmem := Schema.mem_of_find hrow
      rw [hv.findBy_of_mem (k := .userId user) hmem (by simp [schema, huser])]
      obtain ⟨row', hrow', hfit, -⟩ := Schema.accepts_update.mp hfits.1
      obtain rfl := Option.some.inj (hrow.symm.trans hrow')
      exact hfit
  | create row log huser hbalance hlog hpos =>
      obtain ⟨hfit, -, hkeys, hrefs⟩ := Schema.accepts_insert.mp hfits.1
      have hfit : inInt32 row.balance = true := hfit
      rw [hkeys (.userId user) (by simp [schema, huser])]
      refine ⟨hbalance ▸ hfit, ?_⟩
      have hrefs : schema.resolves [(.users, row.userId)] db = true := hrefs
      simp only [Schema.resolves, List.all_cons, List.all_nil, Bool.and_true,
        Option.isSome_iff_exists, huser] at hrefs
      exact hrefs

/-- A grant that is made was possible. -/
theorem wp_grantCredits_grantable {user : String} {n : Int} {type : CreditTransactionType}
    {description key : String} {metadata : Metadata} {c : LocalState} {db : Data} :
    soloProtocol.wp (grantCredits (.str user) (.int n) type description key metadata)
      (fun r c' _ => c'.stack = c.stack ∧ ∀ a, r = .ok a → 0 < n ∧ Grantable user n key db) c db := by
  cases hpos : (Js.int n).le (.int 0) with
  | true =>
      rw [grantCredits, if_pos hpos]
      exact ⟨rfl, fun _ h => by cases h⟩
  | false =>
      rw [Js.le_int, decide_eq_false_iff_not, Int.not_le] at hpos
      refine wp_grantCredits _ (K := fun db' => db' = db) (N := fun _ => True)
        (fun _ _ _ _ hs hk => hs.env.trans hk) rfl (fun _ _ _ => trivial) (fun _ _ _ _ _ _ => trivial)
        (fun _ _ _ hc _ _ => ⟨hc, fun _ h => by cases h⟩)
        (fun r c' db' hc hk hlogged => ⟨hc, fun _ _ => ⟨hpos, ?_⟩⟩)
        fun r t c' db₁ user' n' huser hamount _ hc _ hs hk _ hchange =>
          ⟨⟨trivial, trivial⟩, rfl, fun _ _ => ⟨hpos, ?_⟩⟩
      · exact .inl (hk ▸ hlogged)
      · obtain rfl := Js.str.inj huser
        obtain rfl := Js.int_inj.mp hamount
        have hfits := hs.fits hc
        exact .inr (hk ▸ ⟨hchange.inRange hs.valid hfits, creditsFit_of_change hchange hs.valid hfits⟩)

end CreditsService

/-! ## Subscriptions and charges -/

/-- The tables that a delivery locks around the grant of its credits. -/
def recordTables : List Table := [.processedWebhooks, .subscriptions, .gatewaySubscriptions]

/-- Environments that recognise these dates. -/
def Dated (dates : Js → Option Int) (env : Env) : Prop := env.parseDate = dates

/-- A period boundary that is not given, or is recognised. -/
def DateKnown (dates : Js → Option Int) (d : Option Js) : Prop := ∀ x, d = some x → (dates x).isSome

theorem periodDate_ok {dates : Js → Option Int} {env : Env} {d : Option Js} (default : Int)
    (hw : Dated dates env) (h : DateKnown dates d) : ∃ n, periodDate env default d = .ok n := by
  cases d with
  | none => exact ⟨default, rfl⟩
  | some x =>
      obtain ⟨n, hn⟩ := Option.isSome_iff_exists.mp (h x rfl)
      refine ⟨n, ?_⟩
      have hw : env.parseDate = dates := hw
      rw [periodDate, hw, hn]
      rfl

theorem dateKnown_of_periodDate {dates : Js → Option Int} {env : Env} {default : Int} {d : Option Js}
    (hw : Dated dates env) (h : ∃ n, periodDate env default d = .ok n) : DateKnown dates d := by
  intro x hx
  obtain ⟨n, hn⟩ := h
  have hw : env.parseDate = dates := hw
  rw [hx, periodDate, hw] at hn
  cases hdate : dates x with
  | some _ => rfl
  | none =>
      rw [hdate] at hn
      cases hn

namespace SubscriptionsService

/-- The values of an activation fit their columns. -/
structure Activatable (dates : Js → Option Int) (params : GatewayActivation) : Prop where
  plan : ∃ plan, SubscriptionPlan.ofJs? params.plan = some plan
  id : ∃ id, params.gatewaySubscriptionId.nullableString? = some id
  customer : ∃ customer, params.gatewayCustomerId.nullableString? = some customer
  periodStart : DateKnown dates params.currentPeriodStart
  periodEnd : DateKnown dates params.currentPeriodEnd

/-- An activation for a user who exists goes through. -/
theorem goes_createOrUpdateFromGateway {dates : Js → Option Int} {params : GatewayActivation}
    {user : String} (hv : schema.Valid v) (huser : params.userId = .str user) (h : HasUser user v)
    (hparams : Activatable dates params) :
    postgres.Goes (LocksOf [.subscriptions, .gatewaySubscriptions]) (Dated dates)
      (createOrUpdateFromGateway params) (fun _ _ => True) v := by
  obtain ⟨plan, hplan⟩ := hparams.plan
  obtain ⟨id, hid⟩ := hparams.id
  obtain ⟨customer, hcustomer⟩ := hparams.customer
  refine Engine.goes_bind (goes_query (by simp [WritesIn, Stmt.writes]) rfl (fun env hw => ?_)
    fun env row ws _ hx => ?_)
  · obtain ⟨_, hstart⟩ := periodDate_ok env.now hw hparams.periodStart
    obtain ⟨_, hend⟩ :=
      periodDate_ok (env.now + 30 * 24 * 60 * 60 * 1000) hw hparams.periodEnd
    exact subscriptionUpsert_ok hv huser hplan hstart hend h
  · have hfits := locking.fitsAll_of_exec hv hx
    have hv' : schema.Valid (postgres.applyAll ws v) := locking.valid_applyAll hfits hv
    have hrow : ∃ r, schema.find .subscriptions row.id (postgres.applyAll ws v) = some r := by
      obtain ⟨_, _, _, _, -, -, -, -, hcase⟩ := exec_subscriptionUpsert hx
      rcases hcase with ⟨old, hf, hold, rfl⟩ | ⟨rfl, -⟩
      · rw [hold]
        exact exists_find_mono (locking.le_applyAll _ v)
          ⟨old, hv.find_of_mem (Schema.mem_of_findBy hf)⟩
      · refine ⟨row, hv'.find_of_mem ?_⟩
        rw [applyAll_single, Schema.apply_insert_self]
        simp
    refine Engine.goes_bind (goes_query (by simp [WritesIn, Stmt.writes]) rfl
      (fun env _ => gatewaySubscriptionUpsert_ok hv' hid hcustomer hrow) fun _ _ _ _ _ => ?_)
    exact Engine.goes_pure trivial

/-- An activation goes through only if its values fit. -/
theorem yields_createOrUpdateFromGateway {dates : Js → Option Int} (params : GatewayActivation) :
    postgres.Yields (Dated dates) (createOrUpdateFromGateway params) fun _ => Activatable dates params := by
  refine Engine.yields_bind (Engine.yields_exec (A := fun _ =>
    (∃ plan, SubscriptionPlan.ofJs? params.plan = some plan) ∧
      DateKnown dates params.currentPeriodStart ∧ DateKnown dates params.currentPeriodEnd)
    fun env db row ws hw hx => ?_) fun _ hsub => ?_
  · obtain ⟨_, plan, _, _, -, hplan, hstart, hend, -⟩ := exec_subscriptionUpsert hx
    exact ⟨⟨plan, hplan⟩, dateKnown_of_periodDate hw ⟨_, hstart⟩, dateKnown_of_periodDate hw ⟨_, hend⟩⟩
  · refine Engine.yields_bind (Engine.yields_exec (A := fun _ =>
      (∃ id, params.gatewaySubscriptionId.nullableString? = some id) ∧
        ∃ customer, params.gatewayCustomerId.nullableString? = some customer)
      fun env db row ws _ hx => ?_) fun _ hgateway => ?_
    · obtain ⟨id, customer, hid, hcustomer⟩ := exec_gatewaySubscriptionUpsert hx
      exact ⟨⟨id, hid⟩, customer, hcustomer⟩
    · exact Engine.yields_pure ⟨hsub.1, hgateway.1, hgateway.2, hsub.2.1, hsub.2.2⟩

end SubscriptionsService

namespace SolanaConfirmationController

/-- The subscription that a transaction pays for can be written. -/
structure Activates (data : SolanaData) : Prop where
  plan : ∃ plan, SubscriptionPlan.ofJs? data.plan = some plan
  id : ∃ id, (data.reference.or data.txHash).nullableString? = some id

/-- The subscription of a transaction goes through, if it has one. -/
theorem goes_activateFirst {dates : Js → Option Int} {data : SolanaData} {user : String}
    (hv : schema.Valid v) (huser : data.userId = .str user) (h : HasUser user v)
    (hactivates : data.plan.truthy = true → Activates data) :
    postgres.Goes (LocksOf recordTables) (Dated dates) (activateFirst data) (fun _ _ => True) v := by
  unfold activateFirst
  split
  · next htruthy =>
    obtain ⟨hplan, hid⟩ := hactivates htruthy
    have hcustomer : (activation data).gatewayCustomerId.nullableString? = some (some user) := by
      show data.userId.nullableString? = _
      rw [huser]
      rfl
    refine Engine.Goes.locks (fun l hl => .tail _ hl) (Engine.goes_bind
      ((SubscriptionsService.goes_createOrUpdateFromGateway hv huser h
        ⟨hplan, hid, ⟨_, hcustomer⟩, nofun, nofun⟩).mono fun _ _ _ => ?_))
    exact Engine.goes_pure trivial
  · exact Engine.goes_pure trivial

end SolanaConfirmationController

/-- The record of a charge goes through, and is there. -/
theorem goes_chargeRecord {data : ChargeRecordUpsert} {user txn : String} {n : Int}
    {plan : Option SubscriptionPlan} (huser : data.userId = .str user)
    (htxn : data.gatewayTransactionId = .str txn) (hamount : data.amountCents = .int n)
    (hn : inInt32 n = true) (hplan : SubscriptionPlan.nullableOfJs? data.plan = some plan)
    (h : HasUser user v) :
    postgres.Goes (LocksOf [.chargeRecords]) W (query (.chargeRecordUpsert data) >>= fun _ => pure ())
      (fun _ v' => HasCharge data.gatewayType txn v') v := by
  refine Engine.goes_bind (goes_query (by simp [WritesIn, Stmt.writes]) rfl
    (fun env _ => chargeRecordUpsert_ok huser htxn hamount hn hplan h) fun env row ws _ hx => ?_)
  obtain ⟨_, txn', _, -, htxn', -, -, -, hgateway, hid, hcase⟩ := exec_chargeRecordUpsert hx
  obtain rfl := Js.str.inj (htxn.symm.trans htxn')
  refine Engine.goes_pure ⟨row, ?_, hgateway, hid⟩
  rcases hcase with ⟨rfl, hmem⟩ | ⟨rfl, -⟩
  · exact hmem
  · rw [applyAll_single, Schema.apply_insert_self]
    simp

/-! ## Deliveries -/

/-- Locks of some tables leave the others free. -/
theorem freeOf_of_locks {T T' : List Table} {stack : List (Tx RowWrite RowLock)}
    (hapart : ∀ t ∈ T, t ∉ T') (h : ∀ l ∈ heldBy stack, LocksOf T l) : FreeOf T' stack :=
  fun l hl hin => hapart l.table (h l hl) hin

theorem freeOf_creditTables {stack : List (Tx RowWrite RowLock)}
    (h : ∀ l ∈ heldBy stack, LocksOf recordTables l) : FreeOf creditTables stack :=
  freeOf_of_locks (by decide) h

/-- The record of a new delivery, and its subscription. -/
theorem goes_record {δ : Type} {id type source : String} {p : Action δ} (hv : schema.Valid v)
    (hnew : schema.find .processedWebhooks id v = none)
    (hp : ∀ v', schema.Valid v' → schema.le v v' →
      postgres.Goes (LocksOf recordTables) W p (fun _ _ => True) v') :
    postgres.Goes (LocksOf recordTables) W
      (query (.processedWebhookCreate (.str id) source (.str type)) >>= fun _ => p)
      (fun _ _ => True) v := by
  refine Engine.goes_bind (goes_query (by simp [WritesIn, Stmt.writes, recordTables]) rfl
    (fun env _ => processedWebhookCreate_ok hnew) fun env row ws _ hx => ?_)
  exact hp _ (locking.valid_applyAll (locking.fitsAll_of_exec hv hx) hv) (locking.le_applyAll _ _)

/-- The transaction of a new delivery: its record and subscriptions, a program
that commits on its own, and the record of the charge. -/
theorem sure_recordFirst {β δ : Type} {id type source : String} {p : Action δ} {m : Action β}
    {q : β → Action Unit} {M Z : Data → Prop} {trace : List (Event Stmt Err)} {db : Data}
    (hv : schema.Valid db) (hnew : schema.find .processedWebhooks id db = none)
    (hp : ∀ v, schema.Valid v → schema.le db v →
      postgres.Goes (LocksOf recordTables) W p (fun _ _ => True) v)
    (honly : Only anyStmt m 0)
    (hm : ∀ c₁ : LocalState, FreeOf creditTables c₁.stack → postgres.Sure W m (fun r c' db' =>
      ∃ b, r = .ok b ∧ c'.stack = c₁.stack ∧ M db') c₁ db)
    (hq : ∀ b v, schema.Valid v → schema.le db v →
      postgres.Goes (LocksOf [.chargeRecords]) W (q b) (fun _ v' => Z v') v) :
    postgres.Sure W (transaction (query (.processedWebhookCreate (.str id) source (.str type)) >>=
        fun _ => p >>= fun _ => m >>= q))
      (fun r c' db' => r = .ok () ∧ c'.stack = [] ∧ Z db') ⟨[], trace⟩ db := by
  rw [← Prog.bind_assoc]
  refine (Engine.sure_transaction_around (D := locking) (L := LocksOf recordTables)
    (K := LocksOf [.chargeRecords]) (R := fun _ _ => True) (M := fun _ _ => M)
    (Z := fun _ v' => Z v') hv .nil (by simp) (goes_record hv hnew hp) (fun _ => honly)
    (fun _ c₁ hheld => hm c₁ (freeOf_creditTables fun l hl => (hheld l hl).resolve_right (by simp)))
    fun _ b db' v hv' hle hle' _ => hq b v hv' (locking.le_trans hle hle')).mono fun r c' db' hr => ?_
  obtain ⟨_, rfl, hstack, hz⟩ := hr
  exact ⟨rfl, hstack, hz⟩

/-- A signed delivery of a new event is handled as its transaction is. -/
theorem AuthorizeNetWebhookController.sure_handleWebhook {config : AuthorizeNetConfig}
    {req : AuthorizeNetRequest} {id : String} {Z : Data → Prop} {db : Data}
    (hsigned : verifyHmac config.hmacSha256 req.rawBody req.signature config.secret = true)
    (hid : req.body.eventId = .str id) (hne : id ≠ "") (htype : req.body.type.truthy = true)
    (hnew : schema.find .processedWebhooks id db = none)
    (h : ∀ trace, postgres.Sure W (recordAndApply req.body)
      (fun r c' db' => r = .ok () ∧ c'.stack = [] ∧ Z db') ⟨[], trace⟩ db) :
    postgres.Sure W (handleWebhook config req) (fun r _ db' => r = .ok {} ∧ Z db') {} db := by
  have hpayload : (!req.body.eventId.truthy || !req.body.type.truthy) = false := by
    rw [hid, htype]
    simp [Js.truthy, hne]
  rw [handleWebhook, hsigned, hpayload, Bool.not_true, if_neg Bool.false_ne_true,
    if_neg Bool.false_ne_true]
  refine Engine.sure_bind (Engine.sure_exec_auto fun env _ => ?_)
  rw [hid, processedWebhookFindUnique_ok, hnew]
  refine Engine.sure_tryCatch (Engine.sure_bind ((h _).mono fun r c' db' hr => ?_))
  obtain ⟨rfl, -, hz⟩ := hr
  exact ⟨rfl, hz⟩

/-- A confirmation of a new transaction that is deep enough is handled as its
transaction is. -/
theorem SolanaConfirmationController.sure_handleConfirmation {setting : Option String}
    {event : SolanaEvent} {data : SolanaData} {txHash : String} {Z : Data → Prop} {db : Data}
    (hdata : event.data = some data) (hevent : event.eventId.truthy = true)
    (htxHash : data.txHash = .str txHash) (hne : txHash ≠ "")
    (hdeep : data.confirmations.lt (requiredConfirmations setting) = false)
    (hnew : schema.find .processedWebhooks txHash db = none)
    (h : ∀ trace, postgres.Sure W (recordAndApply data)
      (fun r c' db' => r = .ok () ∧ c'.stack = [] ∧ Z db') ⟨[], trace⟩ db) :
    postgres.Sure W (handleConfirmation setting event)
      (fun r _ db' => r = .ok { settled := true } ∧ Z db') {} db := by
  have hpayload : (!event.eventId.truthy || !data.txHash.truthy) = false := by
    rw [hevent, htxHash]
    simp [Js.truthy, hne]
  have hhandle : handleConfirmation setting event = settle data := by
    rw [handleConfirmation, hdata]
    simp only [hpayload, hdeep, Bool.false_eq_true, if_false]
  rw [hhandle]
  refine Engine.sure_bind (Engine.sure_exec_auto fun env _ => ?_)
  rw [htxHash, processedWebhookFindUnique_ok, hnew]
  refine Engine.sure_tryCatch (Engine.sure_bind ((h _).mono fun r c' db' hr => ?_))
  obtain ⟨rfl, -, hz⟩ := hr
  exact ⟨rfl, hz⟩

end Healthy

/-! ## What an answer tells -/

section Answers

variable {W : Env → Prop} {φ : Prop}

/-- An event is handled only if its side effects return. -/
theorem AuthorizeNetWebhookController.yields_handleWebhook {config : AuthorizeNetConfig}
    {req : AuthorizeNetRequest}
    (h : postgres.Yields W (applyEvent req.body.type req.body.data) fun _ => φ) :
    postgres.Yields W (handleWebhook config req) fun a => a = {} → φ := by
  unfold handleWebhook
  split
  · exact Engine.yields_throw _
  split
  · exact Engine.yields_throw _
  refine Engine.yields_bind (Engine.yields_of_always (A := fun _ => True) fun _ => trivial)
    fun found _ => ?_
  cases found with
  | some row => exact Engine.yields_pure nofun
  | none =>
      refine Engine.yields_tryCatch (Engine.yields_bind (Engine.yields_transaction
        (Engine.yields_bind (A := fun _ => True) (Engine.yields_of_always fun _ => trivial)
          fun _ _ => h)) fun _ hφ => Engine.yields_pure fun _ => hφ) fun e => ?_
      split
      · exact Engine.yields_pure nofun
      · exact Engine.yields_throw _

/-- A transaction is settled only if its side effects return. -/
theorem SolanaConfirmationController.yields_handleConfirmation {setting : Option String}
    {event : SolanaEvent} {data : SolanaData} (hdata : event.data = some data)
    (h : postgres.Yields W (applyConfirmation data) fun _ => φ) :
    postgres.Yields W (handleConfirmation setting event) fun a => a = { settled := true } → φ := by
  unfold handleConfirmation
  rw [hdata]
  simp only
  split
  · exact Engine.yields_throw _
  split
  · unfold waiting
    split
    · exact Engine.yields_pure nofun
    · exact Engine.yields_pure nofun
    · exact Engine.yields_throw _
  refine Engine.yields_bind (Engine.yields_of_always (A := fun _ => True) fun _ => trivial)
    fun found _ => ?_
  cases found with
  | some row => exact Engine.yields_pure nofun
  | none =>
      refine Engine.yields_tryCatch (Engine.yields_bind (Engine.yields_transaction
        (Engine.yields_bind (A := fun _ => True) (Engine.yields_of_always fun _ => trivial)
          fun _ _ => h)) fun _ hφ => Engine.yields_pure fun _ => hφ) fun e => ?_
      split
      · exact Engine.yields_pure nofun
      · exact Engine.yields_throw _

end Answers

end PaymentBilling
