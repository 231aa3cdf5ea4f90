import PaymentBilling.Safety.RefundStatus
import PaymentBilling.Spec.Commits
import PaymentBilling.Spec.Linked

/-!
# Safety.RequestLifecycle

The life of a refund request, among any operations.

A commit does one of six things to a request (`RequestStep`).  Its columns are
consistent throughout: nothing is set before the review, a refusal has notes, a
payment that was processed has been refunded, and errors are counted.
-/

namespace PaymentBilling

open Relational Transact

/-! ## Steps of a request -/

/-- The ledger has a transaction under the key. -/
def HasKey (key : String) (db : Data) : Prop :=
  ∃ txn ∈ db .ledgerTransactions, txn.idempotencyKey = some key

/-- What a commit of the operation does to a request, that it leaves as `r'`. -/
inductive RequestStep (op : Operation) (db db' : Data) (r' : RefundRequest) : Prop
  | kept (same : schema.find .refundRequests r'.id db = some r')
  | asked (userId : String) (data : CreateRefundRequestDto) (call : op = .createRefund userId data)
      (requests : Requests userId data r')
  | reviewed (r : RefundRequest) (review : RefundCall) (p : RefundPatch)
      (before : schema.find .refundRequests r'.id db = some r) (call : op = .refund r'.id review)
      (reviews : review.Reviews p) (after : r' = p.apply r)
  | paid (r : RefundRequest) (g : GatewayRefund)
      (before : schema.find .refundRequests r'.id db = some r) (call : op = .refund r'.id .process)
      (reviewed : r.status ≠ .PENDING) (type : r.type = .PAYMENT) (refunded : GatewayRefunded r.id g db)
      (booked : HasKey (refundLedgerKey r.id) db')
      (after : r' = (RefundPatch.paymentRefundId g.gatewayRefundId).apply r)
  | failed (r : RefundRequest) (message : String)
      (before : schema.find .refundRequests r'.id db = some r) (call : op = .refund r'.id .process)
      (reviewed : r.status ≠ .PENDING) (after : r' = (RefundPatch.failed message).apply r)
  | processed (r : RefundRequest) (before : schema.find .refundRequests r'.id db = some r)
      (call : op = .refund r'.id .process) (reviewed : r.status ≠ .PENDING)
      (payment : r.type = .PAYMENT → r.paymentRefundId ≠ none)
      (credits : r.type = .CREDITS → HasLog (refundKey r.id) db) (after : r' = RefundPatch.processed.apply r)

section Steps

variable {op : Operation} {db db' : Data} {ws : List RowWrite} {r r' seen : RefundRequest} {id : String}

theorem HasKey.mono {key : String} (h : HasKey key db) (hv : schema.Valid db) (hle : schema.le db db') :
    HasKey key db' := by
  obtain ⟨txn, htxn, hkey⟩ := h
  exact ⟨txn, mem_ledgerTransactions_of_le hv hle htxn, hkey⟩

theorem RefundPatch.apply_id (p : RefundPatch) (r : RefundRequest) : (p.apply r).id = r.id := by
  cases p <;> rfl

theorem find_of_same_table {db' : Data} (h : db' .refundRequests = db .refundRequests) :
    schema.find .refundRequests id db' = schema.find .refundRequests id db := by
  rw [Schema.find, Schema.find, h]

/-- The row that a review was made on is the row that is there. -/
theorem Reviewed.row (h : Reviewed seen db) (hr : schema.find .refundRequests seen.id db = some r) :
    SameRequest seen r ∧ r.status ≠ .PENDING ∧ (seen.paymentRefundId ≠ none → r.paymentRefundId ≠ none) := by
  obtain ⟨r₀, hr₀, hsame, hstatus⟩ := h.found
  obtain rfl : r = r₀ := Option.some.inj (hr.symm.trans hr₀)
  refine ⟨hsame, hstatus, fun hpaid => ?_⟩
  obtain ⟨r₁, hr₁, hset⟩ := h.paid hpaid
  obtain rfl : r = r₁ := Option.some.inj (hr.symm.trans hr₁)
  exact hset

/-- A patch of one request leaves the others as they are. -/
theorem patched_request {p : RefundPatch} {db₁ : Data} (hsame : db₁ .refundRequests = db .refundRequests)
    (hp : ∀ r, schema.find .refundRequests r.id db = some r → r.id = id →
      RequestStep op db db' (p.apply r))
    (h : schema.find .refundRequests r'.id (schema.apply (.update .refundRequests id p) db₁) = some r') :
    RequestStep op db db' r' := by
  rcases find_patched h with ⟨-, hr⟩ | ⟨hid, r, hr, hafter⟩
  · exact .kept ((find_of_same_table hsame).symm.trans hr)
  · rw [find_of_same_table hsame] at hr
    have hrid : r.id = r'.id := Schema.id_of_find hr
    rw [hafter]
    exact hp r (hrid ▸ hr) (hrid.trans hid)

/-- What a commit does to the requests. -/
theorem Commit.request_step (h : Commit op db ws) (hv : schema.Valid db) (hfits : locking.fitsAll ws db)
    (hr : schema.find .refundRequests r'.id (postgres.applyAll ws db) = some r') :
    RequestStep op db (postgres.applyAll ws db) r' := by
  have hkept : postgres.applyAll ws db .refundRequests = db .refundRequests →
      RequestStep op db (postgres.applyAll ws db) r' :=
    fun hsame => .kept ((find_of_same_table hsame).symm.trans hr)
  cases h with
  | plain tables => exact hkept (applyAll_plain tables (by decide))
  | credits src user n _ _ change => exact hkept (change.other (by decide) (by decide))
  | request userId data r call requests =>
      rw [applyAll_single, Schema.find_insert] at hr
      cases hold : schema.find .refundRequests r'.id db with
      | some old =>
          rw [hold] at hr
          exact .kept (hold.trans hr)
      | none =>
          rw [hold] at hr
          simp only [Option.none_or, Option.ite_none_right_eq_some, Option.some.injEq] at hr
          obtain ⟨-, rfl⟩ := hr
          exact .asked userId data call requests
  | review id review p call reviews =>
      refine patched_request rfl (fun r hfind hid => ?_) hr
      subst hid
      rw [← p.apply_id r] at hfind call
      exact .reviewed r review p hfind call reviews rfl
  | charge seen g _ _ _ _ => exact hkept (applyAll_other (by simp [Write.table]))
  | paid seen g txn call reviewed type refunded transferred _ =>
      rw [locking.fitsAll_append] at hfits
      rw [postgres.applyAll_append, applyAll_single] at hr ⊢
      refine patched_request (transferred.other (by decide)) (fun r hr hid => ?_) hr
      have hrow := reviewed.row (hid ▸ hr)
      rw [← hid] at call refunded
      refine .paid r g hr call hrow.2.1 (hrow.1.type.trans type) refunded ⟨txn, ?_⟩ rfl
      rw [apply_update_other (by decide), hid]
      exact transferred.recorded hv hfits.1 rfl
  | failed seen message call reviewed =>
      refine patched_request rfl (fun r hr hid => ?_) hr
      have hrow := reviewed.row (hid ▸ hr)
      rw [← hid] at call
      exact .failed r message hr call hrow.2.1 rfl
  | processed seen call reviewed settled =>
      refine patched_request rfl (fun r hr hid => ?_) hr
      have hrow := reviewed.row (hid ▸ hr)
      rw [← hid] at call
      refine .processed r hr call hrow.2.1 (fun htype => ?_) (fun htype => ?_) rfl
      · rw [Settled, ← hrow.1.type, htype] at settled
        obtain ⟨r₁, hr₁, hpaid⟩ := settled
        obtain rfl : r = r₁ := Option.some.inj ((hid ▸ hr).symm.trans hr₁)
        exact hpaid
      · rw [Settled, ← hrow.1.type, htype] at settled
        exact hid ▸ settled
  | chargeback config req data r _ _ _ delivery _ =>
      exact hkept (AuthorizeNetWebhookController.delivery_other delivery (by decide))
  | submitted e _ => exact hkept (applyAll_other (by simp [Write.table]))
  | evidence id evidence _ _ => exact hkept (applyAll_other (by simp [Write.table]))
  | outcome seen o fee now txn _ _ transferred _ =>
      refine hkept ?_
      rw [postgres.applyAll_append, applyAll_single, apply_update_other (by decide)]
      exact transferred.other (by decide)

end Steps

/-! ## Consistent columns -/

/-- The columns of a request agree with how far it has got. -/
structure RefundRequest.Consistent (r : RefundRequest) : Prop where
  amount : 0 < r.amount
  gateway : r.type = .PAYMENT → r.gatewayType ≠ none
  untouched : r.status = .PENDING → r.reviewedBy = none ∧ r.reviewedAt = none ∧ r.reviewNotes = none ∧
    r.paymentRefundId = none ∧ r.processAttempts = 0 ∧ r.lastProcessError = none
  reviewed : r.status ≠ .PENDING → r.reviewedBy ≠ none ∧ r.reviewedAt ≠ none
  denied : r.status = .DENIED → ∃ notes, r.reviewNotes = some notes ∧ RefundsService.isBlank notes = false
  refunded : r.paymentRefundId ≠ none → r.type = .PAYMENT
  processed : r.status = .PROCESSED → r.type = .PAYMENT → r.paymentRefundId ≠ none
  attempts : 0 ≤ r.processAttempts
  errors : r.lastProcessError ≠ none → 0 < r.processAttempts

section Consistent

variable {op : Operation} {db db' : Data} {r r' : RefundRequest}

theorem consistent_of_requests {userId : String} {data : CreateRefundRequestDto}
    (h : Requests userId data r) : r.Consistent := by
  obtain ⟨n, txn, hn, hpos, hgateway, hr⟩ := h
  rw [hr]
  exact {
    amount := hpos
    gateway := hgateway
    untouched := fun _ => ⟨rfl, rfl, rfl, rfl, rfl, rfl⟩
    reviewed := fun hs => absurd rfl hs
    denied := fun hs => by cases hs
    refunded := fun hp => absurd rfl hp
    processed := fun hs => by cases hs
    attempts := Int.le_refl 0
    errors := fun he => absurd rfl he }

/-- A review sets its columns, and has notes if it refuses. -/
theorem RefundRequest.Consistent.review {call : RefundCall} {p : RefundPatch} (h : r.Consistent)
    (hp : call.Reviews p) : (p.apply r).Consistent := by
  have hset : ∀ status adminId now notes, (status = .APPROVED ∨ status = .DENIED ∧
      ∃ text, notes = some text ∧ RefundsService.isBlank text = false) →
      ((RefundPatch.review status adminId now notes).apply r).Consistent := by
    intro status adminId now notes hstatus
    exact {
      amount := h.amount
      gateway := h.gateway
      untouched := fun hs => by
        rcases hstatus with rfl | ⟨rfl, -⟩ <;> cases hs
      reviewed := fun _ => by simp [RefundPatch.apply]
      denied := fun hs => by
        rcases hstatus with rfl | ⟨rfl, text, rfl, hblank⟩
        · cases hs
        · exact ⟨text, rfl, hblank⟩
      refunded := h.refunded
      processed := fun hs => by
        rcases hstatus with rfl | ⟨rfl, -⟩ <;> cases hs
      attempts := h.attempts
      errors := h.errors }
  cases call with
  | approve adminId notes =>
      obtain ⟨now, rfl⟩ := hp
      exact hset _ _ _ _ (.inl rfl)
  | deny adminId notes =>
      obtain ⟨hblank, now, rfl⟩ := hp
      exact hset _ _ _ _ (.inr ⟨rfl, notes, rfl, hblank⟩)
  | process => exact hp.elim

/-- Steps keep the columns of requests consistent. -/
theorem RequestStep.consistent (h : RequestStep op db db' r')
    (hold : ∀ r ∈ db .refundRequests, r.Consistent) : r'.Consistent := by
  have hbefore : ∀ {r id}, schema.find .refundRequests id db = some r → r.Consistent :=
    fun hr => hold _ (Schema.mem_of_find hr)
  cases h with
  | kept same => exact hbefore same
  | asked userId data call requests => exact consistent_of_requests requests
  | reviewed r review p before call reviews after =>
      rw [after]
      exact (hbefore before).review reviews
  | paid r g before call reviewed type refunded booked after =>
      have hr := hbefore before
      rw [after]
      exact { hr with
        untouched := fun hs => absurd hs reviewed
        refunded := fun _ => type
        processed := fun _ _ => by simp [RefundPatch.apply] }
  | failed r message before call reviewed after =>
      have hr := hbefore before
      have hattempts := hr.attempts
      rw [after]
      exact { hr with
        untouched := fun hs => absurd hs reviewed
        attempts := by simp only [RefundPatch.apply]; omega
        errors := fun _ => by simp only [RefundPatch.apply]; omega }
  | processed r before call reviewed payment credits after =>
      have hr := hbefore before
      rw [after]
      exact { hr with
        untouched := fun hs => by cases hs
        reviewed := fun _ => hr.reviewed reviewed
        denied := fun hs => by cases hs
        processed := fun _ htype => payment htype
        errors := fun he => absurd rfl he }

end Consistent

/-! ## Runs -/

section Runs

variable {ι : Type} [DecidableEq ι] {db : Database} {ops : ι → Operation}
  {s s' : Sys Stmt Data RowWrite RowLock Err Unit ι} {i : ι}

/-- What a step of a run does to the requests. -/
theorem requestStep_of_runs (h : Runs postgres AnyStep (operations db ops) s)
    (hstep : Step postgres s i s') {r' : RefundRequest} (hr : r' ∈ s'.db .refundRequests) :
    RequestStep (ops i) s.db s'.db r' := by
  have hfind : schema.find .refundRequests r'.id s'.db = some r' :=
    (valid_of_operations (h.step hstep trivial)).1.find_of_mem hr
  rcases commit_of_step h hstep with hsame | ⟨ws, hv, hfits, hcommit, hdb⟩
  · exact .kept (hsame ▸ hfind)
  · rw [hdb] at hfind ⊢
    exact hcommit.request_step hv hfits hfind

end Runs

end PaymentBilling
