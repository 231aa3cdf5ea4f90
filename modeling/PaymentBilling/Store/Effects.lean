import PaymentBilling.Store.Statement

/-!
# Store.Effects

What each statement can have done once it has succeeded: its answer, its write
and what it found.  The proofs about the services only use these facts, never
the plans.
-/

namespace PaymentBilling

open Relational

/-! ## Plans -/

section Plan

variable {α β : Type} {t : Table} {w : Option RowWrite}

@[simp] theorem required_bind {o : Option α} {f : α → Except Err (RowPlan β)} {p : RowPlan β} :
    (required o >>= f) = .ok p ↔ ∃ a, o = some a ∧ f a = .ok p := by
  cases o <;> simp [required, bind, Except.bind]

@[simp] theorem reading_eq_ok {a b : β} :
    reading a = .ok ⟨b, w⟩ ↔ a = b ∧ w = none := by
  simp [reading, eq_comm]

@[simp] theorem inserting_eq_ok {row row' : Row t} :
    inserting t row = .ok ⟨row', w⟩ ↔ row = row' ∧ w = some (.insert t row) := by
  simp [inserting, eq_comm]

@[simp] theorem updating_eq_ok {p : Patch t} {found : Option (Row t)} {row' : Row t} :
    updating t p found = .ok ⟨row', w⟩ ↔
      ∃ row, found = some row ∧ row' = schema.patch p row ∧
        w = some (.update t (schema.id row) p) := by
  cases found <;> simp [updating, eq_comm]

end Plan

/-- A statement that succeeds follows its plan, and its write is accepted. -/
theorem exec_ok {β : Type} {s : Stmt β} {env : Env} {db : Data} {b : β} {ws : List RowWrite} :
    postgres.exec s env db = .ok (b, ws) ↔
      ∃ w, plan env db s = .ok ⟨b, w⟩ ∧ ws = w.toList ∧ ∀ w' ∈ w, schema.accepts w' db := by
  rw [postgres, exec_eq_ok]
  constructor
  · rintro (⟨h, rfl⟩ | ⟨w, h, hw, rfl⟩)
    · exact ⟨none, h, rfl, by simp⟩
    · exact ⟨some w, h, rfl, by simpa using hw⟩
  · rintro ⟨w, h, rfl, hw⟩
    cases w with
    | none => exact .inl ⟨h, rfl⟩
    | some w => exact .inr ⟨w, h, hw w rfl, rfl⟩

section Effects

variable {env : Env} {db : Data} {ws : List RowWrite}

/-! ## Credits -/

theorem exec_creditsFindUnique {userId : Js} {r : Option Credits}
    (h : postgres.exec (.creditsFindUnique userId) env db = .ok (r, ws)) : ws = [] := by
  obtain ⟨w, hp, rfl, -⟩ := exec_ok.mp h
  simp [plan] at hp
  obtain ⟨-, -, -, rfl⟩ := hp
  rfl

/-- Only the balance of a user is looked up. -/
theorem named_of_creditsFindUnique {userId : Js} {r : Option Credits}
    (h : postgres.exec (.creditsFindUnique userId) env db = .ok (r, ws)) :
    ∃ user, userId = .str user := by
  obtain ⟨w, hp, -, -⟩ := exec_ok.mp h
  simp only [plan, required_bind] at hp
  obtain ⟨user, huser, -⟩ := hp
  exact ⟨user, Js.string?_eq_some.mp huser⟩

/-- An upsert raises the balance that exists or creates it. -/
theorem exec_creditsUpsert {userId amount : Js} {r : Credits}
    (h : postgres.exec (.creditsUpsert userId amount) env db = .ok (r, ws)) :
    ∃ user n, userId = .str user ∧ amount.int32? = some n ∧ r.userId = user ∧
      ((∃ old, schema.findBy .credits (.userId user) db = some old ∧ r.id = old.id ∧
          r.balance = old.balance + n ∧ ws = [.update .credits old.id n]) ∨
        (schema.findBy .credits (.userId user) db = none ∧ r.balance = n ∧
          ws = [.insert .credits r])) := by
  obtain ⟨w, hp, rfl, -⟩ := exec_ok.mp h
  simp only [plan, required_bind, Js.string?_eq_some] at hp
  obtain ⟨user, rfl, n, hn, hp⟩ := hp
  refine ⟨user, n, rfl, hn, ?_⟩
  cases hf : schema.findBy .credits (.userId user) db with
  | some old =>
      rw [hf] at hp
      obtain ⟨_, hold, rfl, rfl⟩ := updating_eq_ok.mp hp
      obtain rfl := Option.some.inj hold
      have hu : user = old.userId := by simpa [schema] using Schema.key_of_findBy hf
      exact ⟨hu.symm, .inl ⟨old, rfl, rfl, rfl, rfl⟩⟩
  | none =>
      rw [hf] at hp
      obtain ⟨rfl, rfl⟩ := inserting_eq_ok.mp hp
      exact ⟨rfl, .inr ⟨rfl, rfl, rfl⟩⟩

/-- `FOR UPDATE` reads the balance and locks it. -/
theorem exec_creditsForUpdate {userId : Js} {r : List Credits}
    (h : postgres.exec (.creditsForUpdate userId) env db = .ok (r, ws)) :
    ws = [] ∧ ∀ row ∈ r, ∃ user, userId = .str user ∧
      schema.findBy .credits (.userId user) db = some row ∧
      Lock.row .credits row.id ∈ postgres.claims (.creditsForUpdate userId) db := by
  obtain ⟨w, hp, rfl, -⟩ := exec_ok.mp h
  cases userId with
  | str user =>
      obtain ⟨rfl, rfl⟩ := reading_eq_ok.mp hp
      refine ⟨rfl, fun row hrow => ⟨user, rfl, ?_⟩⟩
      have hf : schema.findBy .credits (.userId user) db = some row := by simpa using hrow
      exact ⟨hf, by simp [postgres, engine, claims, hf]⟩
  | undefined =>
      obtain ⟨rfl, rfl⟩ := reading_eq_ok.mp hp
      exact ⟨rfl, by simp⟩
  | null =>
      obtain ⟨rfl, rfl⟩ := reading_eq_ok.mp hp
      exact ⟨rfl, by simp⟩
  | _ => cases hp

/-- What a deduction reads of a user is all there is. -/
theorem exec_creditsForUpdate_rows {userId : Js} {r : List Credits}
    (h : postgres.exec (.creditsForUpdate userId) env db = .ok (r, ws)) (user : String)
    (huser : userId = .str user) : r = (schema.findBy .credits (.userId user) db).toList := by
  subst huser
  obtain ⟨w, hp, rfl, -⟩ := exec_ok.mp h
  obtain ⟨rfl, rfl⟩ := reading_eq_ok.mp hp
  rfl

theorem exec_creditsUpdate {userId decrement : Js} {r : Credits}
    (h : postgres.exec (.creditsUpdate userId decrement) env db = .ok (r, ws)) :
    ∃ user n old, userId = .str user ∧ decrement.int32? = some n ∧
      schema.findBy .credits (.userId user) db = some old ∧
      r.balance = old.balance + -n ∧ ws = [.update .credits old.id (-n)] := by
  obtain ⟨w, hp, rfl, -⟩ := exec_ok.mp h
  simp only [plan, required_bind, Js.string?_eq_some] at hp
  obtain ⟨user, rfl, n, hn, hp⟩ := hp
  obtain ⟨old, hf, rfl, rfl⟩ := updating_eq_ok.mp hp
  exact ⟨user, n, old, rfl, hn, hf, rfl, rfl⟩

/-- The lookup of a key sees the rows of the transaction's view. -/
theorem exec_creditTransactionFindFirst {key : String} {r : Option CreditTransaction}
    (h : postgres.exec (.creditTransactionFindFirst key) env db = .ok (r, ws)) :
    ws = [] ∧ r = (db .creditTransactions).find? (·.idempotencyKey = some key) := by
  obtain ⟨w, hp, rfl, -⟩ := exec_ok.mp h
  obtain ⟨rfl, rfl⟩ := reading_eq_ok.mp hp
  exact ⟨rfl, rfl⟩

theorem exec_creditTransactionCreate {data : CreditTransactionCreate} {r : CreditTransaction}
    (h : postgres.exec (.creditTransactionCreate data) env db = .ok (r, ws)) :
    ∃ n, data.amount.int32? = some n ∧ ws = [.insert .creditTransactions r] ∧
      r = ⟨r.id, data.creditsId, n, data.type, data.description, data.idempotencyKey,
        data.metadata⟩ := by
  obtain ⟨w, hp, rfl, -⟩ := exec_ok.mp h
  simp only [plan, required_bind] at hp
  obtain ⟨n, hn, hp⟩ := hp
  obtain ⟨rfl, rfl⟩ := inserting_eq_ok.mp hp
  exact ⟨n, hn, rfl, rfl⟩

/-! ## Ledger -/

/-- An account is found, or created with the balance 0. -/
theorem exec_ledgerAccountUpsert {userId : Js} {type : LedgerAccountType} {r : LedgerAccount}
    (h : postgres.exec (.ledgerAccountUpsert userId type) env db = .ok (r, ws)) :
    ∃ user, userId = .str user ∧ r.userId = user ∧ r.accountType = type ∧
      ((schema.findBy .ledgerAccounts (.userAccount user type) db = some r ∧ ws = []) ∨
        (schema.findBy .ledgerAccounts (.userAccount user type) db = none ∧ r.balance = 0 ∧
          ws = [.insert .ledgerAccounts r])) := by
  obtain ⟨w, hp, rfl, -⟩ := exec_ok.mp h
  simp only [plan, required_bind, Js.string?_eq_some] at hp
  obtain ⟨user, rfl, hp⟩ := hp
  cases hf : schema.findBy .ledgerAccounts (.userAccount user type) db with
  | some old =>
      rw [hf] at hp
      obtain ⟨rfl, rfl⟩ := reading_eq_ok.mp hp
      have hk := Schema.key_of_findBy hf
      simp only [schema, List.mem_singleton, UniqueKey.userAccount.injEq] at hk
      exact ⟨user, rfl, hk.1.symm, hk.2.symm, .inl ⟨hf, rfl⟩⟩
  | none =>
      rw [hf] at hp
      obtain ⟨rfl, rfl⟩ := inserting_eq_ok.mp hp
      exact ⟨user, rfl, rfl, rfl, .inr ⟨hf, rfl, rfl⟩⟩

theorem exec_ledgerAccountFindUnique {id : String} {r : Option LedgerAccount}
    (h : postgres.exec (.ledgerAccountFindUnique id) env db = .ok (r, ws)) :
    ws = [] ∧ r = schema.find .ledgerAccounts id db := by
  obtain ⟨w, hp, rfl, -⟩ := exec_ok.mp h
  obtain ⟨rfl, rfl⟩ := reading_eq_ok.mp hp
  exact ⟨rfl, rfl⟩

theorem exec_ledgerAccountUpdate {id : String} {increment : Js} {r : LedgerAccount}
    (h : postgres.exec (.ledgerAccountUpdate id increment) env db = .ok (r, ws)) :
    ∃ n, increment.int32? = some n ∧ ws = [.update .ledgerAccounts id n] := by
  obtain ⟨w, hp, rfl, -⟩ := exec_ok.mp h
  simp only [plan, required_bind] at hp
  obtain ⟨n, hn, hp⟩ := hp
  obtain ⟨old, hf, rfl, rfl⟩ := updating_eq_ok.mp hp
  exact ⟨n, hn, by rw [Schema.id_of_find hf]; rfl⟩

theorem exec_ledgerTransactionFindFirst {key : String} {r : Option TransactionResponse}
    (h : postgres.exec (.ledgerTransactionFindFirst key) env db = .ok (r, ws)) :
    ws = [] ∧
      r = (schema.findBy .ledgerTransactions (.idempotencyKey key) db).map (withEntries db) := by
  obtain ⟨w, hp, rfl, -⟩ := exec_ok.mp h
  obtain ⟨rfl, rfl⟩ := reading_eq_ok.mp hp
  exact ⟨rfl, rfl⟩

theorem exec_ledgerTransactionFindUnique {id : String} {r : Option TransactionResponse}
    (h : postgres.exec (.ledgerTransactionFindUnique id) env db = .ok (r, ws)) :
    ws = [] ∧ r = (schema.find .ledgerTransactions id db).map (withEntries db) := by
  obtain ⟨w, hp, rfl, -⟩ := exec_ok.mp h
  obtain ⟨rfl, rfl⟩ := reading_eq_ok.mp hp
  exact ⟨rfl, rfl⟩

theorem exec_ledgerTransactionCreate {data : LedgerTransactionCreate} {r : LedgerTransaction}
    (h : postgres.exec (.ledgerTransactionCreate data) env db = .ok (r, ws)) :
    ∃ user, data.userId.nullableString? = some user ∧ ws = [.insert .ledgerTransactions r] ∧
      r = ⟨r.id, r.transactionId, user, data.description, data.status, data.metadata,
        data.idempotencyKey⟩ := by
  obtain ⟨w, hp, rfl, -⟩ := exec_ok.mp h
  simp only [plan, required_bind] at hp
  obtain ⟨user, hu, hp⟩ := hp
  obtain ⟨rfl, rfl⟩ := inserting_eq_ok.mp hp
  exact ⟨user, hu, rfl, rfl⟩

theorem exec_ledgerEntryCreate {data : LedgerEntryCreate} {r : LedgerEntry}
    (h : postgres.exec (.ledgerEntryCreate data) env db = .ok (r, ws)) :
    ∃ n, data.amount.int32? = some n ∧ ws = [.insert .ledgerEntries r] ∧
      r = ⟨r.id, data.ledgerTransactionId, data.accountId, data.entryType, n⟩ := by
  obtain ⟨w, hp, rfl, -⟩ := exec_ok.mp h
  simp only [plan, required_bind] at hp
  obtain ⟨n, hn, hp⟩ := hp
  obtain ⟨rfl, rfl⟩ := inserting_eq_ok.mp hp
  exact ⟨n, hn, rfl, rfl⟩

/-! ## Disputes -/

theorem exec_disputeFindByGateway {gatewayDisputeId : String} {r : Option Dispute}
    (h : postgres.exec (.disputeFindByGateway gatewayDisputeId) env db = .ok (r, ws)) :
    ws = [] ∧ r = schema.findBy .disputes (.gatewayDisputeId gatewayDisputeId) db := by
  obtain ⟨w, hp, rfl, -⟩ := exec_ok.mp h
  obtain ⟨rfl, rfl⟩ := reading_eq_ok.mp hp
  exact ⟨rfl, rfl⟩

theorem exec_disputeFindUnique {id : String} {r : Option Dispute}
    (h : postgres.exec (.disputeFindUnique id) env db = .ok (r, ws)) :
    ws = [] ∧ r = schema.find .disputes id db := by
  obtain ⟨w, hp, rfl, -⟩ := exec_ok.mp h
  obtain ⟨rfl, rfl⟩ := reading_eq_ok.mp hp
  exact ⟨rfl, rfl⟩

theorem exec_disputeCreate {data : DisputeCreate} {r : Dispute}
    (h : postgres.exec (.disputeCreate data) env db = .ok (r, ws)) :
    ∃ user txn n reason, data.userId = .str user ∧ data.originalTransactionId = .str txn ∧
      data.amount.int32? = some n ∧ data.reason.nullableString? = some reason ∧
      ws = [.insert .disputes r] ∧
      r = ⟨r.id, user, data.gateway, data.gatewayDisputeId, txn, n, reason, .OPEN, none, none⟩ := by
  obtain ⟨w, hp, rfl, -⟩ := exec_ok.mp h
  simp only [plan, required_bind, Js.string?_eq_some] at hp
  obtain ⟨user, hu, txn, ht, n, hn, reason, hr, hp⟩ := hp
  obtain ⟨rfl, rfl⟩ := inserting_eq_ok.mp hp
  exact ⟨user, txn, n, reason, hu, ht, hn, hr, rfl, rfl⟩

theorem exec_disputeUpdate {id : String} {data : DisputeUpdate} {r : Dispute}
    (h : postgres.exec (.disputeUpdate id data) env db = .ok (r, ws)) :
    ∃ old, schema.find .disputes id db = some old ∧ r = (data.patch env.now).apply old ∧
      ws = [.update .disputes id (data.patch env.now)] := by
  obtain ⟨w, hp, rfl, -⟩ := exec_ok.mp h
  obtain ⟨old, hf, rfl, rfl⟩ := updating_eq_ok.mp hp
  exact ⟨old, hf, rfl, by rw [Schema.id_of_find hf]; rfl⟩

theorem exec_disputeEvidenceCreate {data : DisputeEvidenceCreate} {r : DisputeEvidence}
    (h : postgres.exec (.disputeEvidenceCreate data) env db = .ok (r, ws)) :
    ws = [.insert .disputeEvidence r] ∧ r.disputeId = data.disputeId := by
  obtain ⟨w, hp, rfl, -⟩ := exec_ok.mp h
  simp only [plan] at hp
  obtain ⟨rfl, rfl⟩ := inserting_eq_ok.mp hp
  exact ⟨rfl, rfl⟩

theorem exec_billingConfigFindUnique {key : String} {r : Option BillingConfig}
    (h : postgres.exec (.billingConfigFindUnique key) env db = .ok (r, ws)) :
    ws = [] ∧ r = schema.find .billingConfig key db := by
  obtain ⟨w, hp, rfl, -⟩ := exec_ok.mp h
  obtain ⟨rfl, rfl⟩ := reading_eq_ok.mp hp
  exact ⟨rfl, rfl⟩

/-! ## Refunds -/

theorem exec_refundFindUnique {id : String} {r : Option RefundRequest}
    (h : postgres.exec (.refundFindUnique id) env db = .ok (r, ws)) :
    ws = [] ∧ r = schema.find .refundRequests id db := by
  obtain ⟨w, hp, rfl, -⟩ := exec_ok.mp h
  obtain ⟨rfl, rfl⟩ := reading_eq_ok.mp hp
  exact ⟨rfl, rfl⟩

/-- A new request is pending. -/
theorem exec_refundCreate {data : RefundCreate} {r : RefundRequest}
    (h : postgres.exec (.refundCreate data) env db = .ok (r, ws)) :
    ∃ n, data.amount = .int n ∧ inInt32 n = true ∧ ws = [.insert .refundRequests r] ∧
      r = ⟨r.id, data.userId, data.type, n, data.reason, .PENDING, none, none, none, none,
        data.gatewayType, data.originalGatewayTransactionId, 0, none⟩ := by
  obtain ⟨w, hp, rfl, -⟩ := exec_ok.mp h
  simp only [plan, required_bind] at hp
  obtain ⟨n, hn, hp⟩ := hp
  obtain ⟨rfl, rfl⟩ := inserting_eq_ok.mp hp
  exact ⟨n, Js.int32?_eq_some hn, decide_eq_true (Js.range_of_int32? hn), rfl, rfl⟩

theorem exec_refundUpdate {id : String} {data : RefundUpdate} {r : RefundRequest}
    (h : postgres.exec (.refundUpdate id data) env db = .ok (r, ws)) :
    ∃ old, schema.find .refundRequests id db = some old ∧ r = (data.patch env.now).apply old ∧
      ws = [.update .refundRequests id (data.patch env.now)] := by
  obtain ⟨w, hp, rfl, -⟩ := exec_ok.mp h
  obtain ⟨old, hf, rfl, rfl⟩ := updating_eq_ok.mp hp
  exact ⟨old, hf, rfl, by rw [Schema.id_of_find hf]; rfl⟩

/-- A gateway executes a refund once for each key and answers the same ever
after. -/
theorem exec_refundCharge {gateway : PaymentGateway} {params : RefundParams}
    {r : Except String RefundResult}
    (h : postgres.exec (.refundCharge gateway params) env db = .ok (r, ws)) :
    ∃ row, r = gatewayAnswer env.lost row ∧ row.idempotencyKey = params.idempotencyKey ∧
      ((schema.find .gatewayRefunds params.idempotencyKey db = some row ∧ ws = []) ∨
        (schema.find .gatewayRefunds params.idempotencyKey db = none ∧
          ws = [.insert .gatewayRefunds row])) := by
  obtain ⟨w, hp, rfl, -⟩ := exec_ok.mp h
  simp only [plan] at hp
  cases hf : schema.find .gatewayRefunds params.idempotencyKey db with
  | some row =>
      rw [hf] at hp
      obtain ⟨rfl, rfl⟩ := reading_eq_ok.mp hp
      exact ⟨row, rfl, Schema.id_of_find hf, .inl ⟨rfl, rfl⟩⟩
  | none =>
      rw [hf] at hp
      cases hp
      exact ⟨_, rfl, rfl, .inr ⟨rfl, rfl⟩⟩

/-! ## Webhooks and subscriptions -/

/-- A charge is found, or recorded. -/
theorem exec_chargeRecordUpsert {data : ChargeRecordUpsert} {r : ChargeRecord}
    (h : postgres.exec (.chargeRecordUpsert data) env db = .ok (r, ws)) :
    ∃ user txn n, data.userId = .str user ∧ data.gatewayTransactionId = .str txn ∧
      data.amountCents = .int n ∧ inInt32 n = true ∧
      (∃ plan, SubscriptionPlan.nullableOfJs? data.plan = some plan) ∧ r.gatewayType = data.gatewayType ∧
      r.gatewayTransactionId = txn ∧
      ((ws = [] ∧ r ∈ db .chargeRecords) ∨ (ws = [.insert .chargeRecords r] ∧ r.amountCents = n)) := by
  obtain ⟨w, hp, rfl, -⟩ := exec_ok.mp h
  simp only [plan, required_bind, Js.string?_eq_some] at hp
  obtain ⟨user, huser, txn, htxn, n, hn, plan, hplan, hp⟩ := hp
  have hrange : inInt32 n = true := decide_eq_true (Js.range_of_int32? hn)
  refine ⟨user, txn, n, huser, htxn, Js.int32?_eq_some hn, hrange, ⟨plan, hplan⟩, ?_⟩
  cases hf : schema.findBy .chargeRecords (.gatewayCharge data.gatewayType txn) db with
  | some row =>
      rw [hf] at hp
      obtain ⟨rfl, rfl⟩ := reading_eq_ok.mp hp
      have hk := Schema.key_of_findBy hf
      simp only [schema, List.mem_singleton, UniqueKey.gatewayCharge.injEq] at hk
      exact ⟨hk.1.symm, hk.2.symm, .inl ⟨rfl, Schema.mem_of_findBy hf⟩⟩
  | none =>
      rw [hf] at hp
      obtain ⟨rfl, rfl⟩ := inserting_eq_ok.mp hp
      exact ⟨rfl, rfl, .inr ⟨rfl, rfl⟩⟩

theorem exec_processedWebhookFindUnique {id : Js} {r : Option ProcessedWebhook}
    (h : postgres.exec (.processedWebhookFindUnique id) env db = .ok (r, ws)) :
    ∃ i, id = .str i ∧ ws = [] ∧ r = schema.find .processedWebhooks i db := by
  obtain ⟨w, hp, rfl, -⟩ := exec_ok.mp h
  simp only [plan, required_bind, Js.string?_eq_some] at hp
  obtain ⟨i, rfl, hp⟩ := hp
  obtain ⟨rfl, rfl⟩ := reading_eq_ok.mp hp
  exact ⟨i, rfl, rfl, rfl⟩

theorem exec_processedWebhookCreate {id eventType : Js} {source : String} {r : ProcessedWebhook}
    (h : postgres.exec (.processedWebhookCreate id source eventType) env db = .ok (r, ws)) :
    ∃ i type, id = .str i ∧ eventType = .str type ∧ ws = [.insert .processedWebhooks r] ∧
      r = ⟨i, source, type⟩ := by
  obtain ⟨w, hp, rfl, -⟩ := exec_ok.mp h
  simp only [plan, required_bind, Js.string?_eq_some] at hp
  obtain ⟨i, rfl, type, rfl, hp⟩ := hp
  obtain ⟨rfl, rfl⟩ := inserting_eq_ok.mp hp
  exact ⟨i, type, rfl, rfl, rfl, rfl⟩

/-- The identifier of a record that is rejected as a duplicate is taken. -/
theorem exec_processedWebhookCreate_taken {id eventType : Js} {source : String}
    (h : postgres.exec (.processedWebhookCreate id source eventType) env db = .error (.rejected .unique)) :
    ∃ i row, id = .str i ∧ schema.find .processedWebhooks i db = some row := by
  rcases exec_eq_error h with hp | ⟨b, w, v, hp, hv, he⟩
  · -- the plan only checks the types of the values
    simp only [plan] at hp
    cases hid : id.string? with
    | none =>
        rw [hid] at hp
        cases hp
    | some i =>
        cases htype : eventType.string? with
        | none =>
            rw [hid, htype] at hp
            cases hp
        | some type =>
            rw [hid, htype] at hp
            cases hp
  · simp only [plan, required_bind, Js.string?_eq_some] at hp
    obtain ⟨i, rfl, type, rfl, hp⟩ := hp
    obtain ⟨rfl, hw⟩ := inserting_eq_ok.mp hp
    obtain rfl := Option.some.inj hw
    cases he
    rcases Schema.taken_of_violation hv with ⟨row, hrow⟩ | ⟨k, hk, -⟩
    · exact ⟨i, row, rfl, hrow⟩
    · cases hk

theorem exec_subscriptionFindUnique {userId : Js} {r : Option Subscription}
    (h : postgres.exec (.subscriptionFindUnique userId) env db = .ok (r, ws)) :
    ∃ user, userId = .str user ∧ ws = [] ∧ r = schema.findBy .subscriptions (.userId user) db := by
  obtain ⟨w, hp, rfl, -⟩ := exec_ok.mp h
  simp only [plan, required_bind, Js.string?_eq_some] at hp
  obtain ⟨user, hu, hp⟩ := hp
  obtain ⟨rfl, rfl⟩ := reading_eq_ok.mp hp
  exact ⟨user, hu, rfl, rfl⟩

/-- A subscription is activated for a plan that there is, or created. -/
theorem exec_subscriptionUpsert {data : SubscriptionUpsert} {r : Subscription}
    (h : postgres.exec (.subscriptionUpsert data) env db = .ok (r, ws)) :
    ∃ user plan periodStart periodEnd, data.userId = .str user ∧
      SubscriptionPlan.ofJs? data.plan = some plan ∧
      periodDate env env.now data.currentPeriodStart = .ok periodStart ∧
      periodDate env (env.now + 30 * 24 * 60 * 60 * 1000) data.currentPeriodEnd = .ok periodEnd ∧
      ((∃ old, schema.findBy .subscriptions (.userId user) db = some old ∧ r.id = old.id ∧
          ws = [.update .subscriptions old.id (.activate plan periodStart periodEnd)]) ∨
        (ws = [.insert .subscriptions r] ∧
          r = ⟨r.id, user, .ACTIVE, plan, some periodStart, some periodEnd, false, none⟩)) := by
  obtain ⟨w, hp, rfl, -⟩ := exec_ok.mp h
  simp only [plan, required_bind, Js.string?_eq_some] at hp
  obtain ⟨user, hu, plan, hplan, hp⟩ := hp
  cases hstart : periodDate env env.now data.currentPeriodStart with
  | error e => rw [hstart] at hp; cases hp
  | ok periodStart =>
      rw [hstart] at hp
      cases hend : periodDate env (env.now + 30 * 24 * 60 * 60 * 1000) data.currentPeriodEnd with
      | error e => rw [hend] at hp; cases hp
      | ok periodEnd =>
          rw [hend] at hp
          refine ⟨user, plan, periodStart, periodEnd, hu, hplan, rfl, rfl, ?_⟩
          cases hf : schema.findBy .subscriptions (.userId user) db with
          | some row =>
              simp only [bind, Except.bind, hf] at hp
              obtain ⟨_, hold, rfl, rfl⟩ := updating_eq_ok.mp hp
              obtain rfl := Option.some.inj hold
              exact .inl ⟨row, rfl, rfl, rfl⟩
          | none =>
              simp only [bind, Except.bind, hf] at hp
              obtain ⟨rfl, rfl⟩ := inserting_eq_ok.mp hp
              exact .inr ⟨rfl, rfl⟩

/-- A subscription that there is is canceled. -/
theorem exec_subscriptionCancel {userId : Js} {r : Subscription}
    (h : postgres.exec (.subscriptionCancel userId) env db = .ok (r, ws)) :
    ∃ user old, userId = .str user ∧ schema.findBy .subscriptions (.userId user) db = some old ∧
      ws = [.update .subscriptions old.id (.cancel env.now)] := by
  obtain ⟨w, hp, rfl, -⟩ := exec_ok.mp h
  simp only [plan, required_bind, Js.string?_eq_some] at hp
  obtain ⟨user, hu, hp⟩ := hp
  obtain ⟨old, hf, rfl, rfl⟩ := updating_eq_ok.mp hp
  exact ⟨user, old, hu, hf, rfl⟩

theorem exec_subscriptionCancelAtPeriodEnd {userId : Js} {value : Bool} {r : Subscription}
    (h : postgres.exec (.subscriptionCancelAtPeriodEnd userId value) env db = .ok (r, ws)) :
    ∃ user old, userId = .str user ∧ schema.findBy .subscriptions (.userId user) db = some old ∧
      ws = [.update .subscriptions old.id (.cancelAtPeriodEnd value)] := by
  obtain ⟨w, hp, rfl, -⟩ := exec_ok.mp h
  simp only [plan, required_bind, Js.string?_eq_some] at hp
  obtain ⟨user, hu, hp⟩ := hp
  obtain ⟨old, hf, rfl, rfl⟩ := updating_eq_ok.mp hp
  exact ⟨user, old, hu, hf, rfl⟩

theorem exec_gatewaySubscriptionUpsert {data : GatewaySubscriptionUpsert} {r : GatewaySubscription}
    (h : postgres.exec (.gatewaySubscriptionUpsert data) env db = .ok (r, ws)) :
    ∃ id customer, data.gatewaySubscriptionId.nullableString? = some id ∧
      data.gatewayCustomerId.nullableString? = some customer := by
  obtain ⟨w, hp, rfl, -⟩ := exec_ok.mp h
  simp only [plan, required_bind] at hp
  obtain ⟨id, hid, customer, hcustomer, -⟩ := hp
  exact ⟨id, customer, hid, hcustomer⟩

end Effects

/-! ## Tables -/

/-- The table that a statement may write. -/
def Stmt.writes : {β : Type} → Stmt β → Option Table
  | _, creditsUpsert .. => some .credits
  | _, creditsUpdate .. => some .credits
  | _, creditTransactionCreate .. => some .creditTransactions
  | _, ledgerAccountUpsert .. => some .ledgerAccounts
  | _, ledgerAccountUpdate .. => some .ledgerAccounts
  | _, ledgerTransactionCreate .. => some .ledgerTransactions
  | _, ledgerEntryCreate .. => some .ledgerEntries
  | _, disputeCreate .. => some .disputes
  | _, disputeUpdate .. => some .disputes
  | _, disputeEvidenceCreate .. => some .disputeEvidence
  | _, refundCreate .. => some .refundRequests
  | _, refundUpdate .. => some .refundRequests
  | _, refundCharge .. => some .gatewayRefunds
  | _, subscriptionUpsert .. => some .subscriptions
  | _, subscriptionCancel .. => some .subscriptions
  | _, subscriptionCancelAtPeriodEnd .. => some .subscriptions
  | _, gatewaySubscriptionUpsert .. => some .gatewaySubscriptions
  | _, chargeRecordUpsert .. => some .chargeRecords
  | _, processedWebhookCreate .. => some .processedWebhooks
  | _, _ => none

/-- A plan writes the table `t` at most. -/
def Within (t : Option Table) {β : Type} (r : Except Err (RowPlan β)) : Prop :=
  ∀ b w, r = .ok ⟨b, some w⟩ → t = some w.table

section Within

variable {t : Option Table} {α β : Type}

theorem within_error {e : Err} : Within t (.error e : Except Err (RowPlan β)) := by
  intro b w hp
  cases hp

theorem within_reading {b : β} : Within t (reading b) := by
  intro b' w hp
  obtain ⟨-, hw⟩ := reading_eq_ok.mp hp
  cases hw

theorem within_ok {b : β} {w : RowWrite} (h : t = some w.table) :
    Within t (.ok ⟨b, some w⟩ : Except Err (RowPlan β)) := by
  intro b' w' hp
  cases hp
  exact h

theorem within_bind {o : Option α} {f : α → Except Err (RowPlan β)} (h : ∀ a, Within t (f a)) :
    Within t (required o >>= f) := by
  intro b w hp
  obtain ⟨a, -, hp⟩ := required_bind.mp hp
  exact h a b w hp

theorem within_periodDate {env : Env} {default : Int} {d : Option Js}
    {f : Int → Except Err (RowPlan β)} (h : ∀ n, Within t (f n)) :
    Within t (periodDate env default d >>= f) := by
  cases d with
  | none => exact h default
  | some x => exact within_bind h

theorem within_inserting {t : Table} {row : Row t} : Within (some t) (inserting t row) := by
  intro b w hp
  obtain ⟨-, hw⟩ := inserting_eq_ok.mp hp
  cases hw
  rfl

theorem within_updating {t : Table} {p : Patch t} {found : Option (Row t)} :
    Within (some t) (updating t p found) := by
  intro b w hp
  obtain ⟨_, -, -, hw⟩ := updating_eq_ok.mp hp
  cases hw
  rfl

end Within

theorem plan_within (env : Env) (db : Data) {β : Type} (s : Stmt β) :
    Within s.writes (plan env db s) := by
  cases s <;> simp only [plan, Stmt.writes]
  all_goals
    repeat' first
      | exact within_reading
      | exact within_error
      | exact within_inserting
      | exact within_updating
      | exact within_ok rfl
      | refine within_bind fun _ => ?_
      | refine within_periodDate fun _ => ?_
      | split

/-- A statement writes no other table. -/
theorem table_of_exec {β : Type} {s : Stmt β} {env : Env} {db : Data} {b : β} {ws : List RowWrite}
    (h : postgres.exec s env db = .ok (b, ws)) : ∀ w ∈ ws, s.writes = some w.table := by
  obtain ⟨w, hp, rfl, -⟩ := exec_ok.mp h
  intro w' hw
  obtain rfl : w = some w' := by simpa using hw
  exact plan_within env db s b w' hp

end PaymentBilling
