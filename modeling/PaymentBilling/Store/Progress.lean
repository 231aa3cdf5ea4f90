import PaymentBilling.Store.Effects

/-!
# Store.Progress

When statements succeed: the values fit their columns, what is referred to is
there, and the unique values are free.  What a statement then does is said in
`Store.Effects`.
-/

namespace PaymentBilling

open Relational

/-- The user exists. -/
def HasUser (user : String) (db : Data) : Prop := ∃ row, schema.find .users user db = some row

section Progress

variable {env : Env} {db : Data}

/-- A statement whose write is accepted succeeds. -/
theorem exec_of_plan {β : Type} {s : Stmt β} {b : β} {w : Option RowWrite}
    (h : plan env db s = .ok ⟨b, w⟩) (hw : ∀ w' ∈ w, schema.accepts w' db) :
    ∃ ws, postgres.exec s env db = .ok (b, ws) := ⟨w.toList, exec_ok.mpr ⟨w, h, rfl, hw⟩⟩

theorem find_freshId (t : Table) : schema.find t (env.freshId t db) db = none := by
  rw [Schema.find, List.find?_eq_none]
  intro row hrow he
  have hid : schema.id row = env.ids.next ((db t).map schema.id) := of_decide_eq_true he
  exact env.ids.fresh ((db t).map schema.id) (hid ▸ List.mem_map_of_mem hrow)

theorem resolves_user {user : String} (h : HasUser user db) :
    schema.resolves [(.users, user)] db = true := by
  obtain ⟨row, hrow⟩ := h
  simp [Schema.resolves, hrow]

theorem hasUser_of_resolves {user : String} (h : schema.resolves [(.users, user)] db = true) :
    HasUser user db := by
  unfold HasUser
  simpa [Schema.resolves, Option.isSome_iff_exists] using h

/-- The owner of a row that is there exists. -/
theorem hasUser_of_credits {row : Credits} (hv : schema.Valid db) (h : row ∈ db .credits) :
    HasUser row.userId db := hasUser_of_resolves (hv.refs .credits row h)

theorem hasUser_of_account {row : LedgerAccount} (hv : schema.Valid db)
    (h : row ∈ db .ledgerAccounts) : HasUser row.userId db :=
  hasUser_of_resolves (hv.refs .ledgerAccounts row h)

theorem hasUser_of_dispute {row : Dispute} (hv : schema.Valid db) (h : row ∈ db .disputes) :
    HasUser row.userId db := hasUser_of_resolves (hv.refs .disputes row h)

theorem hasUser_of_request {row : RefundRequest} (hv : schema.Valid db)
    (h : row ∈ db .refundRequests) : HasUser row.userId db := by
  have hrefs : schema.resolves ([(.users, row.userId)] ++
      (row.reviewedBy.map (Table.users, ·)).toList) db = true := hv.refs .refundRequests row h
  rw [Schema.resolves, List.all_append, Bool.and_eq_true] at hrefs
  exact hasUser_of_resolves hrefs.1

theorem required_some {α : Type} (a : α) : required (some a) = .ok a := rfl

theorem required_string (s : String) : required (Js.str s).string? = .ok s := rfl

theorem except_ok_bind {α β : Type} (a : α) (f : α → Except Err β) : (Except.ok a >>= f) = f a := rfl

theorem required_int {n : Int} (h : inInt32 n = true) : required (Js.int n).int32? = .ok n := by
  rw [Js.int32?_int (by simpa [inInt32] using h)]
  rfl

/-! ## Credits -/

theorem creditTransactionFindFirst_ok (key : String) :
    postgres.exec (.creditTransactionFindFirst key) env db =
      .ok ((db .creditTransactions).find? (·.idempotencyKey = some key), []) :=
  exec_ok.mpr ⟨none, rfl, rfl, by simp⟩

/-- The balance after a change fits its column, or is the first one of a user
who exists. -/
def CreditsFit (user : String) (n : Int) (db : Data) : Prop :=
  match schema.findBy .credits (.userId user) db with
  | some row => inInt32 (row.balance + n) = true
  | none => inInt32 n = true ∧ HasUser user db

/-- Credits that are found belong to a user who exists. -/
theorem hasUser_of_balance {user : String} {row : Credits} (hv : schema.Valid db)
    (h : schema.findBy .credits (.userId user) db = some row) : HasUser user db := by
  have hkey := Schema.key_of_findBy h
  simp only [schema, List.mem_singleton, UniqueKey.userId.injEq] at hkey
  rw [hkey]
  exact hasUser_of_credits hv (Schema.mem_of_findBy h)

theorem CreditsFit.hasUser {user : String} {n : Int} (hv : schema.Valid db)
    (h : CreditsFit user n db) : HasUser user db := by
  rw [CreditsFit] at h
  cases hfind : schema.findBy .credits (.userId user) db with
  | some row => exact hasUser_of_balance hv hfind
  | none =>
      rw [hfind] at h
      exact h.2

theorem creditsUpsert_ok {user : String} {n : Int} (hv : schema.Valid db) (hn : inInt32 n = true)
    (hfit : CreditsFit user n db) :
    ∃ r ws, postgres.exec (.creditsUpsert (.str user) (.int n)) env db = .ok (r, ws) := by
  unfold CreditsFit at hfit
  have hplan : plan env db (.creditsUpsert (.str user) (.int n)) =
      match schema.findBy .credits (.userId user) db with
      | some row => updating .credits n (some row)
      | none => inserting .credits ⟨env.freshId .credits db, user, n⟩ := by
    simp only [plan, required_int hn]
    rfl
  cases hf : schema.findBy .credits (.userId user) db with
  | some row =>
      rw [hf] at hfit hplan
      refine ⟨_, exec_of_plan hplan fun w' hw => ?_⟩
      obtain rfl := Option.some.inj hw
      have hmem := Schema.mem_of_findBy hf
      exact Schema.accepts_update.mpr ⟨row, hv.find_of_mem hmem, hfit, hv.refs .credits row hmem⟩
  | none =>
      rw [hf] at hfit hplan
      refine ⟨_, exec_of_plan hplan fun w' hw => ?_⟩
      obtain rfl := Option.some.inj hw
      refine Schema.accepts_insert.mpr ⟨hfit.1, find_freshId .credits, fun k hk => ?_,
        resolves_user hfit.2⟩
      obtain rfl := List.mem_singleton.mp hk
      exact hf

theorem creditTransactionCreate_ok {data : CreditTransactionCreate} {n : Int}
    (hamount : data.amount = .int n) (hn : inInt32 n = true)
    (hcredits : ∃ row, schema.find .credits data.creditsId db = some row) :
    ∃ r ws, postgres.exec (.creditTransactionCreate data) env db = .ok (r, ws) := by
  have hplan : plan env db (.creditTransactionCreate data) = inserting .creditTransactions
      ⟨env.freshId .creditTransactions db, data.creditsId, n, data.type, data.description,
        data.idempotencyKey, data.metadata⟩ := by
    simp only [plan, hamount, required_int hn]
    rfl
  refine ⟨_, exec_of_plan hplan fun w' hw => ?_⟩
  obtain rfl := Option.some.inj hw
  obtain ⟨row, hrow⟩ := hcredits
  refine Schema.accepts_insert.mpr ⟨hn, find_freshId .creditTransactions, List.forall_mem_nil _, ?_⟩
  show schema.resolves [(.credits, data.creditsId)] db = true
  simp [Schema.resolves, hrow]

theorem creditsForUpdate_ok (user : String) :
    postgres.exec (.creditsForUpdate (.str user)) env db =
      .ok ((schema.findBy .credits (.userId user) db).toList, []) :=
  exec_ok.mpr ⟨none, rfl, rfl, by simp⟩

theorem creditsUpdate_ok {user : String} {n : Int} {row : Credits} (hv : schema.Valid db)
    (hn : inInt32 n = true) (hf : schema.findBy .credits (.userId user) db = some row)
    (hfit : inInt32 (row.balance + -n) = true) :
    ∃ r ws, postgres.exec (.creditsUpdate (.str user) (.int n)) env db = .ok (r, ws) := by
  have hplan : plan env db (.creditsUpdate (.str user) (.int n)) =
      updating .credits (-n) (some row) := by
    simp only [plan, required_int hn]
    rw [← hf]
    rfl
  refine ⟨_, exec_of_plan hplan fun w' hw => ?_⟩
  obtain rfl := Option.some.inj hw
  have hmem := Schema.mem_of_findBy hf
  exact Schema.accepts_update.mpr ⟨row, hv.find_of_mem hmem, hfit, hv.refs .credits row hmem⟩

/-! ## Ledger -/

theorem ledgerAccountUpsert_ok {user : String} {type : LedgerAccountType} (h : HasUser user db) :
    ∃ r ws, postgres.exec (.ledgerAccountUpsert (.str user) type) env db = .ok (r, ws) := by
  cases hf : schema.findBy .ledgerAccounts (.userAccount user type) db with
  | some row =>
      have hplan : plan env db (.ledgerAccountUpsert (.str user) type) = reading row := by
        simp only [plan, required_string, except_ok_bind, hf]
      exact ⟨_, exec_of_plan hplan (by simp)⟩
  | none =>
      have hplan : plan env db (.ledgerAccountUpsert (.str user) type) =
          inserting .ledgerAccounts ⟨env.freshId .ledgerAccounts db, user, type, 0⟩ := by
        simp only [plan, required_string, except_ok_bind, hf]
      refine ⟨_, exec_of_plan hplan fun w' hw => ?_⟩
      obtain rfl := Option.some.inj hw
      refine Schema.accepts_insert.mpr ⟨rfl, find_freshId .ledgerAccounts, fun k hk => ?_,
        resolves_user h⟩
      obtain rfl := List.mem_singleton.mp hk
      exact hf

theorem ledgerTransactionFindFirst_ok (key : String) :
    postgres.exec (.ledgerTransactionFindFirst key) env db =
      .ok ((schema.findBy .ledgerTransactions (.idempotencyKey key) db).map (withEntries db), []) :=
  exec_ok.mpr ⟨none, rfl, rfl, by simp⟩

theorem ledgerTransactionCreate_ok {data : LedgerTransactionCreate} {owner : Option String}
    (howner : data.userId.nullableString? = some owner) (h : ∀ user, owner = some user → HasUser user db)
    (hfree : ∀ key, data.idempotencyKey = some key →
      schema.findBy .ledgerTransactions (.idempotencyKey key) db = none) :
    ∃ r ws, postgres.exec (.ledgerTransactionCreate data) env db = .ok (r, ws) := by
  have hplan : plan env db (.ledgerTransactionCreate data) = inserting .ledgerTransactions
      ⟨env.freshId .ledgerTransactions db, "txn_" ++ env.randomHex ++ "_" ++ toString env.now,
        owner, data.description, data.status, data.metadata, data.idempotencyKey⟩ := by
    simp only [plan, howner]
    rfl
  refine ⟨_, exec_of_plan hplan fun w' hw => ?_⟩
  obtain rfl := Option.some.inj hw
  refine Schema.accepts_insert.mpr ⟨rfl, find_freshId .ledgerTransactions, fun k hk => ?_, ?_⟩
  · obtain ⟨key, hkey, rfl⟩ : ∃ key, data.idempotencyKey = some key ∧ k = .idempotencyKey key := by
      simpa [schema, Option.mem_toList, eq_comm] using hk
    exact hfree key hkey
  · show schema.resolves (owner.map (Table.users, ·)).toList db = true
    cases owner with
    | none => rfl
    | some user => exact resolves_user (h user rfl)

theorem ledgerAccountFindUnique_ok (id : String) :
    postgres.exec (.ledgerAccountFindUnique id) env db =
      .ok (schema.find .ledgerAccounts id db, []) :=
  exec_ok.mpr ⟨none, rfl, rfl, by simp⟩

theorem ledgerEntryCreate_ok {data : LedgerEntryCreate} {n : Int} (hamount : data.amount = .int n)
    (hn : inInt32 n = true)
    (htxn : ∃ row, schema.find .ledgerTransactions data.ledgerTransactionId db = some row)
    (haccount : ∃ row, schema.find .ledgerAccounts data.accountId db = some row) :
    ∃ r ws, postgres.exec (.ledgerEntryCreate data) env db = .ok (r, ws) := by
  have hplan : plan env db (.ledgerEntryCreate data) = inserting .ledgerEntries
      ⟨env.freshId .ledgerEntries db, data.ledgerTransactionId, data.accountId, data.entryType, n⟩ := by
    simp only [plan, hamount, required_int hn]
    rfl
  refine ⟨_, exec_of_plan hplan fun w' hw => ?_⟩
  obtain rfl := Option.some.inj hw
  obtain ⟨txn, htxn⟩ := htxn
  obtain ⟨account, haccount⟩ := haccount
  refine Schema.accepts_insert.mpr ⟨hn, find_freshId .ledgerEntries, List.forall_mem_nil _, ?_⟩
  show schema.resolves [(.ledgerTransactions, data.ledgerTransactionId),
    (.ledgerAccounts, data.accountId)] db = true
  simp [Schema.resolves, htxn, haccount]

theorem ledgerAccountUpdate_ok {id : String} {n : Int} {row : LedgerAccount} (hv : schema.Valid db)
    (hn : inInt32 n = true) (hf : schema.find .ledgerAccounts id db = some row)
    (hfit : inInt32 (row.balance + n) = true) :
    ∃ r ws, postgres.exec (.ledgerAccountUpdate id (.int n)) env db = .ok (r, ws) := by
  have hplan : plan env db (.ledgerAccountUpdate id (.int n)) =
      updating .ledgerAccounts n (some row) := by
    simp only [plan, required_int hn]
    rw [← hf]
    rfl
  refine ⟨_, exec_of_plan hplan fun w' hw => ?_⟩
  obtain rfl := Option.some.inj hw
  have hmem := Schema.mem_of_find hf
  exact Schema.accepts_update.mpr
    ⟨row, hv.find_of_mem hmem, hfit, hv.refs .ledgerAccounts row hmem⟩

/-- An increment that the balance has room for is not refused for its range. -/
theorem ledgerAccountUpdate_inRange {id : String} {increment : Js} {row : LedgerAccount}
    (hv : schema.Valid db) (hf : schema.find .ledgerAccounts id db = some row)
    (hfit : ∀ n, increment.int32? = some n → inInt32 (row.balance + n) = true) :
    postgres.exec (.ledgerAccountUpdate id increment) env db ≠ .error (.rejected .range) := by
  intro h
  cases hn : increment.int32? with
  | none =>
      rcases exec_eq_error h with hp | ⟨_, _, _, hp, -, -⟩
      · simp only [plan, hn] at hp
        cases hp
      · simp only [plan, hn] at hp
        cases hp
  | some n =>
      have hdone : ∃ r ws, postgres.exec (.ledgerAccountUpdate id (.int n)) env db = .ok (r, ws) :=
        ledgerAccountUpdate_ok hv (decide_eq_true (Js.range_of_int32? hn)) hf (hfit n hn)
      obtain ⟨_, _, hok⟩ := hdone
      rw [← Js.int32?_eq_some hn, h] at hok
      cases hok

theorem ledgerTransactionFindUnique_ok (id : String) :
    postgres.exec (.ledgerTransactionFindUnique id) env db =
      .ok ((schema.find .ledgerTransactions id db).map (withEntries db), []) :=
  exec_ok.mpr ⟨none, rfl, rfl, by simp⟩

/-! ## Disputes -/

theorem billingConfigFindUnique_ok (key : String) :
    postgres.exec (.billingConfigFindUnique key) env db =
      .ok (schema.find .billingConfig key db, []) :=
  exec_ok.mpr ⟨none, rfl, rfl, by simp⟩

theorem disputeFindByGateway_ok (gatewayDisputeId : String) :
    postgres.exec (.disputeFindByGateway gatewayDisputeId) env db =
      .ok (schema.findBy .disputes (.gatewayDisputeId gatewayDisputeId) db, []) :=
  exec_ok.mpr ⟨none, rfl, rfl, by simp⟩

theorem disputeFindUnique_ok (id : String) :
    postgres.exec (.disputeFindUnique id) env db = .ok (schema.find .disputes id db, []) :=
  exec_ok.mpr ⟨none, rfl, rfl, by simp⟩

theorem disputeCreate_ok {data : DisputeCreate} {user txn : String} {n : Int}
    {reason : Option String} (huser : data.userId = .str user)
    (htxn : data.originalTransactionId = .str txn) (hamount : data.amount = .int n)
    (hn : inInt32 n = true) (hreason : data.reason.nullableString? = some reason)
    (h : HasUser user db)
    (hfree : schema.findBy .disputes (.gatewayDisputeId data.gatewayDisputeId) db = none) :
    ∃ r ws, postgres.exec (.disputeCreate data) env db = .ok (r, ws) := by
  have hplan : plan env db (.disputeCreate data) = inserting .disputes
      ⟨env.freshId .disputes db, user, data.gateway, data.gatewayDisputeId, txn, n, reason, .OPEN,
        none, none⟩ := by
    simp only [plan, huser, htxn, hamount, required_int hn, hreason]
    rfl
  refine ⟨_, exec_of_plan hplan fun w' hw => ?_⟩
  obtain rfl := Option.some.inj hw
  refine Schema.accepts_insert.mpr ⟨hn, find_freshId .disputes, fun k hk => ?_, resolves_user h⟩
  obtain rfl := List.mem_singleton.mp hk
  exact hfree

/-- No update of a dispute touches its amount or its user. -/
theorem disputeUpdate_ok {id : String} {data : DisputeUpdate} {row : Dispute} (hv : schema.Valid db)
    (hf : schema.find .disputes id db = some row) :
    ∃ r ws, postgres.exec (.disputeUpdate id data) env db = .ok (r, ws) := by
  have hplan : plan env db (.disputeUpdate id data) =
      updating .disputes (data.patch env.now) (some row) := by
    rw [← hf]
    rfl
  refine ⟨_, exec_of_plan hplan fun w' hw => ?_⟩
  obtain rfl := Option.some.inj hw
  have hmem := Schema.mem_of_find hf
  refine Schema.accepts_update.mpr ⟨row, hv.find_of_mem hmem, ?_, ?_⟩
  · have hfits := hv.fits .disputes row hmem
    cases data <;> exact hfits
  · have hrefs := hv.refs .disputes row hmem
    cases data <;> exact hrefs

/-! ## Refunds -/

theorem refundFindUnique_ok (id : String) :
    postgres.exec (.refundFindUnique id) env db = .ok (schema.find .refundRequests id db, []) :=
  exec_ok.mpr ⟨none, rfl, rfl, by simp⟩

/-- A request can be settled: no update of this kind touches its numbers or its
users. -/
theorem refundUpdate_ok {id : String} {data : RefundUpdate} {row : RefundRequest}
    (hdata : data = .processed ∨ ∃ gid, data = .paymentRefundId gid) (hv : schema.Valid db)
    (hf : schema.find .refundRequests id db = some row) :
    ∃ r ws, postgres.exec (.refundUpdate id data) env db = .ok (r, ws) := by
  have hplan : plan env db (.refundUpdate id data) =
      updating .refundRequests (data.patch env.now) (some row) := by
    rw [← hf]
    rfl
  refine ⟨_, exec_of_plan hplan fun w' hw => ?_⟩
  obtain rfl := Option.some.inj hw
  have hmem := Schema.mem_of_find hf
  have hfits := hv.fits .refundRequests row hmem
  have hrefs := hv.refs .refundRequests row hmem
  refine Schema.accepts_update.mpr ⟨row, hv.find_of_mem hmem, ?_, ?_⟩
  · rcases hdata with rfl | ⟨gid, rfl⟩ <;> exact hfits
  · rcases hdata with rfl | ⟨gid, rfl⟩ <;> exact hrefs

/-- A gateway answers with the refund it has made, now or before. -/
theorem refundCharge_ok (gateway : PaymentGateway) (params : RefundParams) :
    ∃ row ws, postgres.exec (.refundCharge gateway params) env db =
        .ok (gatewayAnswer env.lost row, ws) ∧
      (∀ w ∈ ws, w.table = .gatewayRefunds) ∧ row.refundedAmount =
        ((schema.find .gatewayRefunds params.idempotencyKey db).map (·.refundedAmount)).getD
          (env.refund gateway params).refundedAmount := by
  cases hf : schema.find .gatewayRefunds params.idempotencyKey db with
  | some row =>
      have hplan : plan env db (.refundCharge gateway params) = reading (gatewayAnswer env.lost row) := by
        simp only [plan, hf]
      exact ⟨row, [], exec_ok.mpr ⟨none, hplan, rfl, by simp⟩, List.forall_mem_nil _, rfl⟩
  | none =>
      let row : GatewayRefund := ⟨params.idempotencyKey, gateway, params.gatewayTransactionId,
        params.amount, (env.refund gateway params).gatewayRefundId,
        (env.refund gateway params).refundedAmount⟩
      have hplan : plan env db (.refundCharge gateway params) =
          .ok ⟨gatewayAnswer env.lost row, some (.insert .gatewayRefunds row)⟩ := by
        simp only [plan, hf]
        rfl
      refine ⟨row, [.insert .gatewayRefunds row], exec_ok.mpr ⟨_, hplan, rfl, fun w hw => ?_⟩, ?_, rfl⟩
      · obtain rfl := Option.some.inj hw
        exact Schema.accepts_insert.mpr ⟨rfl, hf, List.forall_mem_nil _, rfl⟩
      · rw [List.forall_mem_singleton]
        rfl

/-! ## Webhooks and subscriptions -/

theorem processedWebhookFindUnique_ok (id : String) :
    postgres.exec (.processedWebhookFindUnique (.str id)) env db =
      .ok (schema.find .processedWebhooks id db, []) :=
  exec_ok.mpr ⟨none, rfl, rfl, by simp⟩

theorem processedWebhookCreate_ok {id source type : String}
    (hfree : schema.find .processedWebhooks id db = none) :
    ∃ r ws, postgres.exec (.processedWebhookCreate (.str id) source (.str type)) env db =
      .ok (r, ws) := by
  have hplan : plan env db (.processedWebhookCreate (.str id) source (.str type)) =
      inserting .processedWebhooks ⟨id, source, type⟩ := rfl
  refine ⟨_, exec_of_plan hplan fun w' hw => ?_⟩
  obtain rfl := Option.some.inj hw
  exact Schema.accepts_insert.mpr ⟨rfl, hfree, List.forall_mem_nil _, rfl⟩

theorem subscriptionUpsert_ok {data : SubscriptionUpsert} {user : String} {plan : SubscriptionPlan}
    {periodStart periodEnd : Int} (hv : schema.Valid db) (huser : data.userId = .str user)
    (hplan : SubscriptionPlan.ofJs? data.plan = some plan)
    (hstart : periodDate env env.now data.currentPeriodStart = .ok periodStart)
    (hend : periodDate env (env.now + 30 * 24 * 60 * 60 * 1000) data.currentPeriodEnd =
      .ok periodEnd) (h : HasUser user db) :
    ∃ r ws, postgres.exec (.subscriptionUpsert data) env db = .ok (r, ws) := by
  cases hf : schema.findBy .subscriptions (.userId user) db with
  | some row =>
      have hp : PaymentBilling.plan env db (.subscriptionUpsert data) =
          updating .subscriptions (.activate plan periodStart periodEnd) (some row) := by
        simp only [PaymentBilling.plan, huser, hplan, hstart, hend, required_string, required_some,
          except_ok_bind, hf]
      refine ⟨_, exec_of_plan hp fun w' hw => ?_⟩
      obtain rfl := Option.some.inj hw
      have hmem := Schema.mem_of_findBy hf
      exact Schema.accepts_update.mpr
        ⟨row, hv.find_of_mem hmem, rfl, hv.refs .subscriptions row hmem⟩
  | none =>
      have hp : PaymentBilling.plan env db (.subscriptionUpsert data) = inserting .subscriptions
          ⟨env.freshId .subscriptions db, user, .ACTIVE, plan, some periodStart, some periodEnd,
            false, none⟩ := by
        simp only [PaymentBilling.plan, huser, hplan, hstart, hend, required_string, required_some,
          except_ok_bind, hf]
      refine ⟨_, exec_of_plan hp fun w' hw => ?_⟩
      obtain rfl := Option.some.inj hw
      refine Schema.accepts_insert.mpr ⟨rfl, find_freshId .subscriptions, fun k hk => ?_,
        resolves_user h⟩
      obtain rfl := List.mem_singleton.mp hk
      exact hf

theorem gatewaySubscriptionUpsert_ok {data : GatewaySubscriptionUpsert} {id customer : Option String}
    (hv : schema.Valid db) (hid : data.gatewaySubscriptionId.nullableString? = some id)
    (hcustomer : data.gatewayCustomerId.nullableString? = some customer)
    (hsub : ∃ row, schema.find .subscriptions data.subscriptionId db = some row) :
    ∃ r ws, postgres.exec (.gatewaySubscriptionUpsert data) env db = .ok (r, ws) := by
  cases hf : schema.findBy .gatewaySubscriptions (.subscriptionId data.subscriptionId) db with
  | some row =>
      have hp : plan env db (.gatewaySubscriptionUpsert data) = updating .gatewaySubscriptions
          ⟨data.gatewayType, textUpdate data.gatewaySubscriptionId,
            textUpdate data.gatewayCustomerId, data.gatewayData⟩ (some row) := by
        simp only [plan, hid, hcustomer, required_some, except_ok_bind, hf]
      refine ⟨_, exec_of_plan hp fun w' hw => ?_⟩
      obtain rfl := Option.some.inj hw
      have hmem := Schema.mem_of_findBy hf
      exact Schema.accepts_update.mpr
        ⟨row, hv.find_of_mem hmem, rfl, hv.refs .gatewaySubscriptions row hmem⟩
  | none =>
      have hp : plan env db (.gatewaySubscriptionUpsert data) = inserting .gatewaySubscriptions
          ⟨env.freshId .gatewaySubscriptions db, data.subscriptionId, data.gatewayType, id, customer,
            data.gatewayData⟩ := by
        simp only [plan, hid, hcustomer, required_some, except_ok_bind, hf]
      refine ⟨_, exec_of_plan hp fun w' hw => ?_⟩
      obtain rfl := Option.some.inj hw
      obtain ⟨row, hrow⟩ := hsub
      refine Schema.accepts_insert.mpr ⟨rfl, find_freshId .gatewaySubscriptions, fun k hk => ?_, ?_⟩
      · obtain rfl := List.mem_singleton.mp hk
        exact hf
      · show schema.resolves [(.subscriptions, data.subscriptionId)] db = true
        simp [Schema.resolves, hrow]

theorem chargeRecordUpsert_ok {data : ChargeRecordUpsert} {user txn : String} {n : Int}
    {plan : Option SubscriptionPlan} (huser : data.userId = .str user)
    (htxn : data.gatewayTransactionId = .str txn) (hamount : data.amountCents = .int n)
    (hn : inInt32 n = true) (hplan : SubscriptionPlan.nullableOfJs? data.plan = some plan)
    (h : HasUser user db) :
    ∃ r ws, postgres.exec (.chargeRecordUpsert data) env db = .ok (r, ws) := by
  cases hf : schema.findBy .chargeRecords (.gatewayCharge data.gatewayType txn) db with
  | some row =>
      have hp : PaymentBilling.plan env db (.chargeRecordUpsert data) = reading row := by
        simp only [PaymentBilling.plan, huser, htxn, hamount, required_int hn, hplan, required_string,
          required_some, except_ok_bind, hf]
      exact ⟨_, exec_of_plan hp (by simp)⟩
  | none =>
      have hp : PaymentBilling.plan env db (.chargeRecordUpsert data) = inserting .chargeRecords
          ⟨env.freshId .chargeRecords db, user, data.gatewayType, txn, n, plan⟩ := by
        simp only [PaymentBilling.plan, huser, htxn, hamount, required_int hn, hplan, required_string,
          required_some, except_ok_bind, hf]
      refine ⟨_, exec_of_plan hp fun w' hw => ?_⟩
      obtain rfl := Option.some.inj hw
      refine Schema.accepts_insert.mpr ⟨hn, find_freshId .chargeRecords, fun k hk => ?_,
        resolves_user h⟩
      obtain rfl := List.mem_singleton.mp hk
      exact hf

end Progress

end PaymentBilling
