import PaymentBilling.Safety.OperationKeys
import PaymentBilling.Safety.PaymentRefund
import PaymentBilling.Transact.Journal

/-!
# Spec.Journal

What operations commit.

A commit of an operation is one of a dozen: the credits of its key, a step of a
refund request, a refund at a gateway, a chargeback, a step of a dispute, or rows
of tables on which nothing here depends.  Each says on which rows of the database
it was made, as far as that is still true when it is committed.

No commit takes back that a request was reviewed or that its payment was
refunded; whether it was approved is another matter.
-/

namespace PaymentBilling

open Relational Transact

/-- Tables of which it does not matter here what is written. -/
def plainTables : List Table :=
  [.processedWebhooks, .subscriptions, .gatewaySubscriptions, .chargeRecords]

/-! ## Refund requests -/

/-- What becomes of a request is not undone. -/
structure Advances (r r' : RefundRequest) : Prop where
  reviewed : r.status ≠ .PENDING → r'.status ≠ .PENDING
  paid : r.paymentRefundId ≠ none → r'.paymentRefundId ≠ none

/-- Nothing that became of a request is undone. -/
def Later (db db' : Data) : Prop :=
  ∀ id r, schema.find .refundRequests id db = some r →
    ∃ r', schema.find .refundRequests id db' = some r' ∧ Advances r r'

/-- The request has been reviewed since it was read as `seen`. -/
structure Reviewed (seen : RefundRequest) (db : Data) : Prop where
  found : ∃ r, schema.find .refundRequests seen.id db = some r ∧ SameRequest seen r ∧
    r.status ≠ .PENDING
  paid : seen.paymentRefundId ≠ none → Paid seen.id db

/-- The log has a row with the key. -/
def HasLog (key : String) (db : Data) : Prop :=
  ∃ row, schema.find .creditTransactions row.id db = some row ∧ row.idempotencyKey = some key

/-- The money of the request has moved. -/
def Settled (seen : RefundRequest) (db : Data) : Prop :=
  match seen.type with
  | .CREDITS => HasLog (refundKey seen.id) db
  | .PAYMENT => Paid seen.id db

/-- What the request moves on the credits of its user. -/
def RefundRequest.credited (r : RefundRequest) : Int :=
  match r.type with
  | .CREDITS => r.amount
  | .PAYMENT => -r.amount

section Requests

variable {db db' : Data} {seen r : RefundRequest}

theorem Advances.refl (r : RefundRequest) : Advances r r := ⟨fun h => h, fun h => h⟩

theorem Advances.trans {r' r'' : RefundRequest} (h : Advances r r') (h' : Advances r' r'') :
    Advances r r'' := ⟨fun hs => h'.reviewed (h.reviewed hs), fun hp => h'.paid (h.paid hp)⟩

theorem Later.refl (db : Data) : Later db db := fun _ r h => ⟨r, h, .refl r⟩

theorem Later.trans {db'' : Data} (h : Later db db') (h' : Later db' db'') : Later db db'' := by
  intro id r hr
  obtain ⟨r', hr', hadv⟩ := h id r hr
  obtain ⟨r'', hr'', hadv'⟩ := h' id r' hr'
  exact ⟨r'', hr'', hadv.trans hadv'⟩

theorem Later.of_same (h : db' .refundRequests = db .refundRequests) : Later db db' := by
  intro id r hr
  refine ⟨r, ?_, .refl r⟩
  rw [Schema.find, h]
  exact hr

theorem Later.of_other {ws : List RowWrite} (h : ∀ w ∈ ws, w.table ≠ .refundRequests) :
    Later db (postgres.applyAll ws db) := .of_same (applyAll_other h)

theorem Later.insert {row : RefundRequest} :
    Later db (schema.apply (.insert .refundRequests row) db) := by
  intro id r hr
  refine ⟨r, ?_, .refl r⟩
  rw [Schema.find_insert, hr]
  simp

theorem Later.update {id : String} {p : RefundPatch} (hp : ∀ r, Advances r (p.apply r)) :
    Later db (schema.apply (.update .refundRequests id p) db) := by
  intro id' r hr
  by_cases hid : id' = id
  · subst hid
    exact ⟨p.apply r, by rw [find_refundPatch, hr]; rfl, hp r⟩
  · refine ⟨r, ?_, .refl r⟩
    rw [Schema.find_update, hr]
    have hne : r.id ≠ id := fun h => hid ((Schema.id_of_find hr).symm.trans h)
    exact congrArg some (Schema.revise_of_ne hne)

theorem paid_of_later {id : String} (hlater : Later db db') (h : Paid id db) : Paid id db' := by
  obtain ⟨r, hr, hpaid⟩ := h
  obtain ⟨r', hr', hadv⟩ := hlater id r hr
  exact ⟨r', hr', hadv.paid hpaid⟩

theorem Reviewed.later (h : Reviewed seen db) (hle : schema.le db db') (hlater : Later db db') :
    Reviewed seen db' where
  found := by
    obtain ⟨r, hr, hsame, hstatus⟩ := h.found
    obtain ⟨r', hr', hadv⟩ := hlater _ r hr
    have hsame' := sameRequest_of_le hle hr hr'
    exact ⟨r', hr', ⟨hsame'.id.trans hsame.id, hsame'.userId.trans hsame.userId,
      hsame'.type.trans hsame.type, hsame'.amount.trans hsame.amount,
      hsame'.gatewayType.trans hsame.gatewayType, hsame'.originalGatewayTransactionId.trans
        hsame.originalGatewayTransactionId⟩, hadv.reviewed hstatus⟩
  paid hpaid := paid_of_later hlater (h.paid hpaid)

theorem reviewed_of_find (h : schema.find .refundRequests seen.id db = some seen)
    (hstatus : seen.status ≠ .PENDING) : Reviewed seen db :=
  ⟨⟨seen, h, ⟨rfl, rfl, rfl, rfl, rfl, rfl⟩, hstatus⟩, fun hpaid => ⟨seen, h, hpaid⟩⟩

theorem HasLog.mono {key : String} (h : HasLog key db) (hle : schema.le db db') : HasLog key db' := by
  obtain ⟨row, hrow, hkey⟩ := h
  obtain ⟨row', hrow', hfix⟩ := hle _ _ _ hrow
  obtain rfl : row' = row := hfix
  exact ⟨row', hrow', hkey⟩

theorem hasLog_iff {key : String} (hv : schema.Valid db) :
    HasLog key db ↔ CreditsService.Logged key db :=
  ⟨fun ⟨row, hrow, hkey⟩ => ⟨row, Schema.mem_of_find hrow, hkey⟩,
    fun ⟨row, hrow, hkey⟩ => ⟨row, hv.find_of_mem hrow, hkey⟩⟩

theorem Settled.later (h : Settled seen db) (hle : schema.le db db') (hlater : Later db db') :
    Settled seen db' := by
  unfold Settled at h ⊢
  cases htype : seen.type with
  | CREDITS =>
      rw [htype] at h
      exact h.mono hle
  | PAYMENT =>
      rw [htype] at h
      exact paid_of_later hlater h

end Requests

/-- The row that a gateway keeps of a refund, with all that was asked. -/
theorem exec_refundCharge_row {env : Env} {db : Data} {ws : List RowWrite} {gateway : PaymentGateway}
    {params : RefundParams} {r : Except String RefundResult}
    (h : postgres.exec (.refundCharge gateway params) env db = .ok (r, ws)) :
    ∃ g, r = gatewayAnswer env.lost g ∧ g.idempotencyKey = params.idempotencyKey ∧
      ((schema.find .gatewayRefunds params.idempotencyKey db = some g ∧ ws = []) ∨
        (schema.find .gatewayRefunds params.idempotencyKey db = none ∧
          ws = [.insert .gatewayRefunds g] ∧ g = ⟨params.idempotencyKey, gateway,
            params.gatewayTransactionId, params.amount, g.gatewayRefundId, g.refundedAmount⟩)) := by
  obtain ⟨w, hp, rfl, -⟩ := exec_ok.mp h
  simp only [plan] at hp
  cases hf : schema.find .gatewayRefunds params.idempotencyKey db with
  | some row =>
      rw [hf] at hp
      obtain ⟨rfl, rfl⟩ := reading_eq_ok.mp hp
      exact ⟨row, rfl, Schema.id_of_find hf, .inl ⟨rfl, rfl⟩⟩
  | none =>
      rw [hf] at hp
      cases hp
      exact ⟨_, rfl, rfl, .inr ⟨rfl, rfl, rfl⟩⟩

/-- A row after a patch is what it was, or the patched one. -/
theorem find_patched {db : Data} {t : Table} {i id : String} {p : Patch t} {row : Row t}
    (h : schema.find t i (schema.apply (.update t id p) db) = some row) :
    (i ≠ id ∧ schema.find t i db = some row) ∨
      (i = id ∧ ∃ old, schema.find t i db = some old ∧ row = schema.patch p old) := by
  rw [Schema.find_update] at h
  obtain ⟨old, hold, hrevise⟩ := Option.map_eq_some_iff.mp h
  have hid : schema.id old = i := Schema.id_of_find hold
  by_cases hsame : i = id
  · refine .inr ⟨hsame, old, hold, ?_⟩
    rw [← hrevise, ← hsame, ← hid, Schema.revise_self]
  · refine .inl ⟨hsame, ?_⟩
    rw [hold, ← hrevise, Schema.revise_of_ne fun heq => hsame (hid.symm.trans heq)]

/-- Something was submitted for the dispute. -/
def Evidenced (id : String) (db : Data) : Prop :=
  ∃ e, schema.find .disputeEvidence e.id db = some e ∧ e.disputeId = id

theorem Evidenced.mono {id : String} {db db' : Data} (h : Evidenced id db) (hle : schema.le db db') :
    Evidenced id db' := by
  obtain ⟨e, he, hid⟩ := h
  obtain ⟨e', he', hfix⟩ := hle _ _ _ he
  obtain rfl : e' = e := hfix
  exact ⟨e', he', hid⟩

/-- The row that is kept of what was submitted. -/
theorem exec_disputeEvidenceCreate_row {env : Env} {db : Data} {ws : List RowWrite}
    {data : DisputeEvidenceCreate} {e : DisputeEvidence}
    (h : postgres.exec (.disputeEvidenceCreate data) env db = .ok (e, ws)) :
    ws = [.insert .disputeEvidence e] ∧
      e = ⟨e.id, data.disputeId, data.submittedBy, data.evidenceType, data.content, data.metadata⟩ := by
  obtain ⟨w, hp, rfl, -⟩ := exec_ok.mp h
  simp only [plan] at hp
  obtain ⟨rfl, rfl⟩ := inserting_eq_ok.mp hp
  exact ⟨rfl, rfl⟩

/-! ## Commits -/

/-- A row that a user asks for. -/
def Requests (userId : String) (data : CreateRefundRequestDto) (r : RefundRequest) : Prop :=
  ∃ n txn, data.amount = .int n ∧ 0 < n ∧ (data.type = .PAYMENT → data.gatewayType ≠ none) ∧
    r = ⟨r.id, userId, data.type, n, data.reason, .PENDING, none, none, none, none,
      data.gatewayType, txn, 0, none⟩

/-- What a review sets. -/
def RefundCall.Reviews : RefundCall → RefundPatch → Prop
  | approve adminId notes, p => ∃ now, p = .review .APPROVED adminId now notes
  | deny adminId notes, p =>
    RefundsService.isBlank notes = false ∧ ∃ now, p = .review .DENIED adminId now (some notes)
  | process, _ => False

/-- What a gateway refunds is what the request says. -/
structure Charges (seen : RefundRequest) (g : GatewayRefund) : Prop where
  idempotencyKey : g.idempotencyKey = refundKey seen.id
  gateway : seen.gatewayType = some g.gateway
  gatewayTransactionId : seen.originalGatewayTransactionId = some g.gatewayTransactionId
  amount : g.amount = seen.amount

/-- A ledger transaction that is written is the user's. -/
def Registers (user : Js) (w : RowWrite) : Prop :=
  ∀ txn : LedgerTransaction, w = .insert .ledgerTransactions txn → user.nullableString? = some txn.userId

/-- The user whose credits the operation moves, and by how much. -/
def Operation.Moves (user : String) (n : Int) (db : Data) : Operation → Prop
  | card _ req => ∃ data, req.body.data = some data ∧ data.userId = .str user ∧
    match EventType.ofJs req.body.type with
    | .chargeApproved => AuthorizeNetWebhookController.creditAmount data.contextRef = some n
    | .chargeRefunded => AuthorizeNetWebhookController.creditAmount data.contextRef = some (-n)
    | .chargebackReceived => data.amount = .int (-n)
    | _ => False
  | chain _ event => ∃ data, event.data = some data ∧ data.userId = .str user ∧ data.amount = .int n
  | refund id _ => ∃ r, schema.find .refundRequests id db = some r ∧ r.userId = user ∧
    r.status ≠ .PENDING ∧ n = r.credited
  | dispute id _ => ∃ d, schema.find .disputes id db = some d ∧ d.userId = user ∧ n = d.amount
  | _ => False

/-- What an operation commits at once. -/
inductive Commit (op : Operation) (db : Data) : List RowWrite → Prop
  | plain {ws : List RowWrite} (tables : ∀ w ∈ ws, w.table ∈ plainTables) : Commit op db ws
  | credits {ws : List RowWrite} (src : CreditSource) (user : String) (n : Int)
      (source : op.creditSource? = some src) (moves : op.Moves user n db)
      (change : CreditChange user n (some src.key) ws db) : Commit op db ws
  | request (userId : String) (data : CreateRefundRequestDto) (r : RefundRequest)
      (call : op = .createRefund userId data) (requests : Requests userId data r) :
      Commit op db [.insert .refundRequests r]
  | review (id : String) (review : RefundCall) (p : RefundPatch) (call : op = .refund id review)
      (reviews : review.Reviews p) : Commit op db [.update .refundRequests id p]
  | charge (seen : RefundRequest) (g : GatewayRefund) (call : op = .refund seen.id .process)
      (reviewed : Reviewed seen db) (type : seen.type = .PAYMENT) (charges : Charges seen g) :
      Commit op db [.insert .gatewayRefunds g]
  | paid {ws : List RowWrite} (seen : RefundRequest) (g : GatewayRefund) (txn : LedgerTransaction)
      (call : op = .refund seen.id .process) (reviewed : Reviewed seen db)
      (type : seen.type = .PAYMENT) (refunded : GatewayRefunded seen.id g db)
      (transferred : Transferred (RefundsService.refundTransfer seen g.refundedAmount) txn ws db)
      (registers : ∀ w ∈ ws, Registers (.str seen.userId) w) :
      Commit op db
        (ws ++ [.update .refundRequests seen.id (RefundPatch.paymentRefundId g.gatewayRefundId)])
  | failed (seen : RefundRequest) (message : String) (call : op = .refund seen.id .process)
      (reviewed : Reviewed seen db) :
      Commit op db [.update .refundRequests seen.id (RefundPatch.failed message)]
  | processed (seen : RefundRequest) (call : op = .refund seen.id .process)
      (reviewed : Reviewed seen db) (settled : Settled seen db) :
      Commit op db [.update .refundRequests seen.id RefundPatch.processed]
  | chargeback {ws : List RowWrite} (config : AuthorizeNetConfig) (req : AuthorizeNetRequest)
      (data : AuthorizeNetData) (r : Option Dispute) (call : op = .card config req)
      (type : EventType.ofJs req.body.type = .chargebackReceived) (body : req.body.data = some data)
      (delivery : (AuthorizeNetWebhookController.deliveryEffect data).rel r ws db)
      (registers : ∀ w ∈ ws, Registers data.userId w) : Commit op db ws
  | submitted (e : DisputeEvidence)
      (call : op = .dispute e.disputeId (.evidence e.submittedBy e.evidenceType e.content e.metadata)) :
      Commit op db [.insert .disputeEvidence e]
  | evidence (id : String) (evidence : DisputeCall) (call : op = .dispute id evidence)
      (submitted : Evidenced id db) :
      Commit op db [.update .disputes id DisputePatch.evidenceSubmitted]
  | outcome {ws : List RowWrite} (seen : Dispute) (o : DisputeOutcome) (fee now : Int)
      (txn : LedgerTransaction) (call : op = .dispute seen.id (.outcome o))
      (stays : ∃ d, schema.find .disputes seen.id db = some d ∧ SameDispute seen d)
      (transferred : Transferred (DisputesService.outcomeTransfer seen fee o) txn ws db)
      (registers : ∀ w ∈ ws, Registers (.str seen.userId) w) :
      Commit op db (ws ++ [.update .disputes seen.id (DisputePatch.resolve o.status now)])

section Commit

variable {op : Operation} {db : Data} {ws : List RowWrite}

/-- Writes of plain tables leave the others as they are. -/
theorem applyAll_plain {t : Table} (h : ∀ w ∈ ws, w.table ∈ plainTables) (ht : t ∉ plainTables) :
    postgres.applyAll ws db t = db t :=
  applyAll_other fun w hw heq => ht (heq ▸ h w hw)

theorem advances_review {call : RefundCall} {p : RefundPatch} (h : call.Reviews p)
    (r : RefundRequest) : Advances r (p.apply r) := by
  cases call with
  | approve adminId notes =>
      obtain ⟨now, rfl⟩ := h
      exact ⟨fun _ => by simp [RefundPatch.apply], fun hp => hp⟩
  | deny adminId notes =>
      obtain ⟨-, now, rfl⟩ := h
      exact ⟨fun _ => by simp [RefundPatch.apply], fun hp => hp⟩
  | process => exact h.elim

/-- The commits that write a request. -/
theorem Commit.later (h : Commit op db ws) : Later db (postgres.applyAll ws db) := by
  cases h with
  | plain tables => exact .of_same (applyAll_plain tables (by decide))
  | credits src user n _ _ change => exact .of_same (change.other (by decide) (by decide))
  | request userId data r _ _ => exact .insert
  | review id review p _ reviews => exact .update fun r => advances_review reviews r
  | charge seen g _ _ _ _ => exact .of_other (by simp [Write.table])
  | paid seen g txn _ _ _ _ transferred _ =>
      rw [postgres.applyAll_append]
      exact (Later.of_same (transferred.other (by decide))).trans
        (.update fun r => ⟨fun hs => hs, fun _ => by simp [RefundPatch.apply]⟩)
  | failed seen message _ _ => exact .update fun r => ⟨fun hs => hs, fun hp => hp⟩
  | processed seen _ _ _ =>
      exact .update fun r => ⟨fun _ => by simp [RefundPatch.apply], fun hp => hp⟩
  | chargeback config req data r _ _ _ delivery _ =>
      exact .of_same (AuthorizeNetWebhookController.delivery_other delivery (by decide))
  | submitted e _ => exact .of_other (by simp [Write.table])
  | evidence id evidence _ _ => exact .of_other (by simp [Write.table])
  | outcome seen o fee now txn _ _ transferred _ =>
      rw [postgres.applyAll_append]
      exact (Later.of_same (transferred.other (by decide))).trans (.of_other (by simp [Write.table]))

end Commit

/-- The journal of the operations. -/
def journal {ι : Type} (ops : ι → Operation) : Journal locking ι where
  commit i := Commit (ops i)
  later := Later
  later_refl := .refl
  later_trans := .trans
  later_commit _ _ h := h.later

end PaymentBilling
