import PaymentBilling.Safety.CreditTrail
import PaymentBilling.Safety.LedgerTrail
import PaymentBilling.Safety.RequestLifecycle

/-!
# Safety.RefundTrail

What was refunded, and what for.

A gateway refunds a payment only for a request that was reviewed, by what the
request says; credits are moved under the key of a request only for its user and
by its amount; and the columns of a request tell the truth about both.
-/

namespace PaymentBilling

open Relational Transact

/-! ## The trail -/

/-- Refunds and requests agree. -/
structure RefundTrail (db : Data) : Prop where
  charged : ∀ g ∈ db .gatewayRefunds, ∃ r ∈ db .refundRequests,
    r.type = .PAYMENT ∧ r.status ≠ .PENDING ∧ Charges r g
  logged : ∀ row ∈ db .creditTransactions, ∀ id, row.idempotencyKey = some (refundKey id) →
    ∃ r ∈ db .refundRequests, r.id = id ∧ r.status ≠ .PENDING ∧ ownerOf db row = some r.userId ∧
      row.amount = r.credited
  paid : ∀ r ∈ db .refundRequests, ∀ refundId, r.paymentRefundId = some refundId →
    ∃ g, GatewayRefunded r.id g db ∧ g.gatewayRefundId = refundId ∧ HasKey (refundLedgerKey r.id) db
  processed : ∀ r ∈ db .refundRequests, r.status = .PROCESSED → Settled r db

section Trail

variable {op : Operation} {db db' : Data} {ws : List RowWrite} {r r' seen : RefundRequest}
  {g : GatewayRefund} {row : CreditTransaction} {id : String}

theorem refundTrail_of_none (hgateway : db .gatewayRefunds = []) (hlog : db .creditTransactions = [])
    (hunpaid : ∀ r ∈ db .refundRequests, r.paymentRefundId = none ∧ r.status ≠ .PROCESSED) :
    RefundTrail db where
  charged g hg := by
    rw [hgateway] at hg
    cases hg
  logged row hrow := by
    rw [hlog] at hrow
    cases hrow
  paid r hr refundId hpaid := by
    rw [(hunpaid r hr).1] at hpaid
    cases hpaid
  processed r hr hstatus := absurd hstatus (hunpaid r hr).2

/-- A row that the charge of a request is about is about the request as it is later. -/
theorem Charges.same (h : Charges seen g) (hsame : SameRequest seen r) : Charges r g where
  idempotencyKey := by rw [hsame.id, h.idempotencyKey]
  gateway := hsame.gatewayType.trans h.gateway
  gatewayTransactionId := hsame.originalGatewayTransactionId.trans h.gatewayTransactionId
  amount := h.amount.trans hsame.amount.symm

/-- The request is still there, and is what it was. -/
theorem request_later (hv : schema.Valid db) (hle : schema.le db db') (hlater : Later db db')
    (hr : r ∈ db .refundRequests) :
    ∃ r' ∈ db' .refundRequests, SameRequest r r' ∧ (r.status ≠ .PENDING → r'.status ≠ .PENDING) := by
  have hfind : schema.find .refundRequests r.id db = some r := hv.find_of_mem hr
  obtain ⟨r', hr', hadv⟩ := hlater _ r hfind
  exact ⟨r', Schema.mem_of_find hr', sameRequest_of_le hle hfind hr', hadv.reviewed⟩

/-! ## Refunds of the gateways -/

/-- A commit adds a refund for its request, or none. -/
theorem Commit.gatewayRefunds (h : Commit op db ws) :
    postgres.applyAll ws db .gatewayRefunds = db .gatewayRefunds ∨
      ∃ seen g, Reviewed seen db ∧ seen.type = .PAYMENT ∧ Charges seen g ∧
        postgres.applyAll ws db .gatewayRefunds = db .gatewayRefunds ++ [g] := by
  cases h with
  | plain tables => exact .inl (applyAll_plain tables (by decide))
  | credits src user n _ _ change => exact .inl (change.other (by decide) (by decide))
  | request userId data r _ _ => exact .inl (applyAll_other (by simp [Write.table]))
  | review id review p _ _ => exact .inl (applyAll_other (by simp [Write.table]))
  | charge seen g _ reviewed type charges =>
      exact .inr ⟨seen, g, reviewed, type, charges, by rw [applyAll_single, Schema.apply_insert_self]⟩
  | paid seen g txn _ _ _ _ transferred _ =>
      refine .inl ?_
      rw [postgres.applyAll_append, applyAll_single, apply_update_other (by decide)]
      exact transferred.other (by decide)
  | failed seen message _ _ => exact .inl (applyAll_other (by simp [Write.table]))
  | processed seen _ _ _ => exact .inl (applyAll_other (by simp [Write.table]))
  | chargeback config req data r _ _ _ delivery _ =>
      exact .inl (AuthorizeNetWebhookController.delivery_other delivery (by decide))
  | submitted e _ => exact .inl (applyAll_other (by simp [Write.table]))
  | evidence id evidence _ _ => exact .inl (applyAll_other (by simp [Write.table]))
  | outcome seen o fee now txn _ _ transferred _ =>
      refine .inl ?_
      rw [postgres.applyAll_append, applyAll_single, apply_update_other (by decide)]
      exact transferred.other (by decide)

/-- What a review was made on is there, as it is now. -/
theorem Reviewed.mem (h : Reviewed seen db) :
    ∃ r ∈ db .refundRequests, SameRequest seen r ∧ r.status ≠ .PENDING := by
  obtain ⟨r, hr, hsame, hstatus⟩ := h.found
  exact ⟨r, Schema.mem_of_find hr, hsame, hstatus⟩

theorem RefundTrail.charged_step (h : RefundTrail db) (hv : schema.Valid db) (hcommit : Commit op db ws)
    (g : GatewayRefund) (hg : g ∈ postgres.applyAll ws db .gatewayRefunds) :
    ∃ r ∈ postgres.applyAll ws db .refundRequests,
      r.type = .PAYMENT ∧ r.status ≠ .PENDING ∧ Charges r g := by
  have hlater : ∀ {r : RefundRequest}, r ∈ db .refundRequests → r.type = .PAYMENT → r.status ≠ .PENDING →
      Charges r g → ∃ r ∈ postgres.applyAll ws db .refundRequests,
        r.type = .PAYMENT ∧ r.status ≠ .PENDING ∧ Charges r g := by
    intro r hr htype hstatus hcharges
    obtain ⟨r', hr', hsame, hstatus'⟩ := request_later hv (locking.le_applyAll ws db) hcommit.later hr
    exact ⟨r', hr', hsame.type.trans htype, hstatus' hstatus, hcharges.same hsame⟩
  have hold : g ∈ db .gatewayRefunds → ∃ r ∈ postgres.applyAll ws db .refundRequests,
      r.type = .PAYMENT ∧ r.status ≠ .PENDING ∧ Charges r g := by
    intro hg
    obtain ⟨r, hr, htype, hstatus, hcharges⟩ := h.charged g hg
    exact hlater hr htype hstatus hcharges
  rcases hcommit.gatewayRefunds with hsame | ⟨seen, g', hreviewed, htype, hcharges, hnew⟩
  · exact hold (hsame ▸ hg)
  · rw [hnew] at hg
    rcases List.mem_append.mp hg with hg | hg
    · exact hold hg
    · obtain rfl := List.mem_singleton.mp hg
      obtain ⟨r, hr, hsame, hstatus⟩ := hreviewed.mem
      exact hlater hr (hsame.type.trans htype) hstatus (hcharges.same hsame)

/-! ## Credits under the key of a request -/

/-- What moves credits for a request moves them as the request says. -/
theorem Operation.moves_refund {user : String} {n : Int} (hsrc : op.creditSource? = some (.refund id))
    (hmoves : op.Moves user n db) : ∃ r, schema.find .refundRequests id db = some r ∧ r.userId = user ∧
      r.status ≠ .PENDING ∧ n = r.credited := by
  cases op with
  | refund id' call =>
      cases call <;> simp only [creditSource?, Option.some.injEq, CreditSource.refund.injEq] at hsrc <;>
        grind [Operation.Moves]
  | card config req =>
      simp only [creditSource?] at hsrc
      split at hsrc <;> cases hsrc
  | chain setting event =>
      obtain ⟨data, -, hsrc⟩ := Option.map_eq_some_iff.mp hsrc
      cases hsrc
  | dispute id' call =>
      simp only [creditSource?] at hsrc
      split at hsrc <;> simp_all
  | _ => cases hsrc

theorem RefundTrail.logged_step (h : RefundTrail db) (hv : schema.Valid db) (hfits : locking.fitsAll ws db)
    (hcommit : Commit op db ws) (row : CreditTransaction)
    (hrow : row ∈ postgres.applyAll ws db .creditTransactions) (id : String)
    (hkey : row.idempotencyKey = some (refundKey id)) :
    ∃ r ∈ postgres.applyAll ws db .refundRequests, r.id = id ∧ r.status ≠ .PENDING ∧
      ownerOf (postgres.applyAll ws db) row = some r.userId ∧ row.amount = r.credited := by
  have hle := locking.le_applyAll ws db
  have hcredited : ∀ {r r' : RefundRequest}, SameRequest r r' → r'.credited = r.credited := fun hsame => by
    rw [RefundRequest.credited, RefundRequest.credited, hsame.type, hsame.amount]
  have hold : row ∈ db .creditTransactions → ∃ r ∈ postgres.applyAll ws db .refundRequests, r.id = id ∧
      r.status ≠ .PENDING ∧ ownerOf (postgres.applyAll ws db) row = some r.userId ∧
        row.amount = r.credited := by
    intro hrow
    obtain ⟨r, hr, hid, hstatus, howner, hamount⟩ := h.logged row hrow id hkey
    obtain ⟨r', hr', hsame, hstatus'⟩ := request_later hv hle hcommit.later hr
    exact ⟨r', hr', hsame.id.trans hid, hstatus' hstatus,
      by rw [ownerOf_of_le hv hle hrow, howner, hsame.userId], by rw [hamount, hcredited hsame]⟩
  cases hcommit.credit with
  | same tables => exact hold (tables .creditTransactions (by decide) ▸ hrow)
  | changed src user n source moves change =>
      obtain ⟨new, hlog, howner, hamount, hnew⟩ := change.logged hfits
      rw [hlog] at hrow
      rcases List.mem_append.mp hrow with hrow | hrow
      · exact hold hrow
      · obtain rfl := List.mem_singleton.mp hrow
        have hsrc : src = .refund id :=
          CreditSource.key_injective (Option.some.inj (hnew.symm.trans hkey))
        obtain ⟨r, hr, huser, hstatus, hn⟩ := Operation.moves_refund (hsrc ▸ source) moves
        obtain ⟨r', hr', hadv⟩ := hcommit.later id r hr
        have hsame := sameRequest_of_le hle hr hr'
        exact ⟨r', Schema.mem_of_find hr', Schema.id_of_find hr', hadv.reviewed hstatus,
          by rw [howner, hsame.userId, huser], by rw [hamount, hn, hcredited hsame]⟩

/-! ## The columns of a request -/

theorem RefundTrail.paid_step (h : RefundTrail db) (hv : schema.Valid db) (hle : schema.le db db')
    (hstep : RequestStep op db db' r') {refundId : String} (hpaid : r'.paymentRefundId = some refundId) :
    ∃ g, GatewayRefunded r'.id g db' ∧ g.gatewayRefundId = refundId ∧
      HasKey (refundLedgerKey r'.id) db' := by
  have hold : ∀ {r : RefundRequest}, schema.find .refundRequests r'.id db = some r →
      r.paymentRefundId = some refundId → ∃ g, GatewayRefunded r'.id g db' ∧
        g.gatewayRefundId = refundId ∧ HasKey (refundLedgerKey r'.id) db' := by
    intro r hr hpaid
    obtain ⟨g, hg, hid, hkey⟩ := h.paid r (Schema.mem_of_find hr) refundId hpaid
    have hrid : r.id = r'.id := Schema.id_of_find hr
    rw [hrid] at hg hkey
    exact ⟨g, hg.mono hle, hid, hkey.mono hv hle⟩
  cases hstep with
  | kept same => exact hold same hpaid
  | asked userId data call requests =>
      obtain ⟨n, txn, -, -, -, hr⟩ := requests
      rw [hr] at hpaid
      cases hpaid
  | reviewed r review p before call reviews after =>
      refine hold before ?_
      rw [← hpaid, after]
      cases review with
      | approve adminId notes =>
          obtain ⟨now, rfl⟩ := reviews
          rfl
      | deny adminId notes =>
          obtain ⟨-, now, rfl⟩ := reviews
          rfl
      | process => exact reviews.elim
  | paid r g before call reviewed type refunded booked after =>
      have hrid : r.id = r'.id := Schema.id_of_find before
      rw [hrid] at refunded booked
      rw [after] at hpaid
      exact ⟨g, refunded.mono hle, Option.some.inj hpaid, booked⟩
  | failed r message before call reviewed after =>
      refine hold before ?_
      rw [← hpaid, after]
      rfl
  | processed r before call reviewed payment credits after =>
      refine hold before ?_
      rw [← hpaid, after]
      rfl

theorem RefundTrail.processed_step (h : RefundTrail db) (hle : schema.le db db') (hlater : Later db db')
    (hstep : RequestStep op db db' r') (hstatus : r'.status = .PROCESSED) : Settled r' db' := by
  have hold : ∀ {r : RefundRequest}, schema.find .refundRequests r'.id db = some r →
      r.status = .PROCESSED → r'.type = r.type → Settled r' db' := by
    intro r hr hstatus htype
    have hsettled := (h.processed r (Schema.mem_of_find hr) hstatus).later hle hlater
    have hrid : r.id = r'.id := Schema.id_of_find hr
    rw [Settled, htype, ← hrid]
    exact hsettled
  cases hstep with
  | kept same => exact hold same hstatus rfl
  | asked userId data call requests =>
      obtain ⟨n, txn, -, -, -, hr⟩ := requests
      rw [hr] at hstatus
      cases hstatus
  | reviewed r review p before call reviews after =>
      rw [after] at hstatus
      cases review with
      | approve adminId notes =>
          obtain ⟨now, rfl⟩ := reviews
          cases hstatus
      | deny adminId notes =>
          obtain ⟨-, now, rfl⟩ := reviews
          cases hstatus
      | process => exact reviews.elim
  | paid r g before call reviewed type refunded booked after =>
      rw [after] at hstatus
      exact hold before hstatus (by rw [after]; rfl)
  | failed r message before call reviewed after =>
      rw [after] at hstatus
      exact hold before hstatus (by rw [after]; rfl)
  | processed r before call reviewed payment credits after =>
      have hrid : r.id = r'.id := Schema.id_of_find before
      have htype : r'.type = r.type := by
        rw [after]
        rfl
      have hsettled : Settled r db := by
        unfold Settled
        cases hr : r.type with
        | CREDITS => exact credits hr
        | PAYMENT => exact ⟨r, hrid ▸ before, payment hr⟩
      rw [Settled, htype, ← hrid]
      exact hsettled.later hle hlater

/-- Commits keep the trail. -/
theorem Commit.refundTrail (h : Commit op db ws) (hv : schema.Valid db) (hfits : locking.fitsAll ws db)
    (htrail : RefundTrail db) : RefundTrail (postgres.applyAll ws db) := by
  have hle := locking.le_applyAll ws db
  have hstep : ∀ r ∈ postgres.applyAll ws db .refundRequests,
      RequestStep op db (postgres.applyAll ws db) r := fun r hr =>
    h.request_step hv hfits ((locking.valid_applyAll hfits hv).find_of_mem hr)
  exact {
    charged := htrail.charged_step hv h
    logged := htrail.logged_step hv hfits h
    paid := fun r hr refundId hpaid => htrail.paid_step hv hle (hstep r hr) hpaid
    processed := fun r hr hstatus => htrail.processed_step hle h.later (hstep r hr) hstatus }

end Trail

/-! ## Runs -/

section Runs

variable {ι : Type} [DecidableEq ι] {db : Database} {ops : ι → Operation}
  {s : Sys Stmt Data RowWrite RowLock Err Unit ι}

theorem refundTrail_of_runs (hold : RefundTrail db.rows)
    (h : Runs postgres AnyStep (operations db ops) s) : RefundTrail s.db :=
  inv_of_commits hold (fun _ _ _ hv htrail hfits hcommit => hcommit.refundTrail hv hfits htrail) h

/-- Whatever operations run at once: no gateway has refunded anything but the
amount, the charge and the gateway of a payment request that was reviewed, and
no credits were moved under the key of a request but for its user and by its
amount, after its review. -/
theorem refunds_reviewed (db : Database) (ops : ι → Operation) (hold : RefundTrail db.rows)
    (s : Sys Stmt Data RowWrite RowLock Err Unit ι) (h : Runs postgres AnyStep (operations db ops) s) :
    (∀ g ∈ s.db .gatewayRefunds, ∃ r ∈ s.db .refundRequests,
        r.type = .PAYMENT ∧ r.status ≠ .PENDING ∧ Charges r g) ∧
      ∀ row ∈ s.db .creditTransactions, ∀ id, row.idempotencyKey = some (refundKey id) →
        ∃ r ∈ s.db .refundRequests, r.id = id ∧ r.status ≠ .PENDING ∧
          ownerOf s.db row = some r.userId ∧ row.amount = r.credited :=
  ⟨(refundTrail_of_runs hold h).charged, (refundTrail_of_runs hold h).logged⟩

/-- The credits of a request are in the log. -/
def GrantBacked (r : RefundRequest) (db : Data) : Prop :=
  ∃ row ∈ db .creditTransactions, row.idempotencyKey = some (refundKey r.id) ∧
    ownerOf db row = some r.userId ∧ row.amount = r.amount

/-- A gateway has refunded the payment, and the ledger has reversed what came
back. -/
def PaymentBacked (r : RefundRequest) (db : Data) : Prop :=
  ∃ g txn n, GatewayRefunded r.id g db ∧ Charges r g ∧ r.paymentRefundId = some g.gatewayRefundId ∧
    g.refundedAmount = .int n ∧ txn ∈ db .ledgerTransactions ∧
    Explained (.refund r.id) txn r.userId n db

/-- Behind a settled request there is what its type asks for. -/
theorem RefundTrail.backed {db : Data} {r : RefundRequest} (h : RefundTrail db) (hv : schema.Valid db)
    (hledger : LedgerTrail db) (hr : r ∈ db .refundRequests) (hstatus : r.status = .PROCESSED) :
    (r.type = .CREDITS → GrantBacked r db) ∧ (r.type = .PAYMENT → PaymentBacked r db) := by
  have hfind : schema.find .refundRequests r.id db = some r := hv.find_of_mem hr
  have hsettled := h.processed r hr hstatus
  constructor
  · intro htype
    rw [Settled, htype] at hsettled
    obtain ⟨row, hrow, hkey⟩ := hsettled
    obtain ⟨r', hr', hid, -, howner, hamount⟩ := h.logged row (Schema.mem_of_find hrow) r.id hkey
    obtain rfl : r' = r := hv.eq_of_id hr' hr hid
    refine ⟨row, Schema.mem_of_find hrow, hkey, howner, ?_⟩
    rw [hamount, RefundRequest.credited, htype]
  · intro htype
    rw [Settled, htype] at hsettled
    obtain ⟨r₁, hr₁, hpaid⟩ := hsettled
    obtain rfl : r = r₁ := Option.some.inj (hfind.symm.trans hr₁)
    obtain ⟨refundId, hrefundId⟩ := Option.ne_none_iff_exists'.mp hpaid
    obtain ⟨g, hg, hgid, txn, htxn, hkey⟩ := h.paid r hr refundId hrefundId
    obtain ⟨r', hr', -, -, hcharges⟩ := h.charged g (Schema.mem_of_find hg)
    have hsame : r' = r := by
      have hkeys : (CreditSource.refund r'.id).key = (CreditSource.refund r.id).key :=
        hcharges.idempotencyKey.symm.trans (Schema.id_of_find hg)
      exact hv.eq_of_id hr' hr (CreditSource.refund.inj (CreditSource.key_injective hkeys))
    obtain ⟨src, user, n, hexplained⟩ := hledger.explained txn htxn
    have hsrc : src = .refund r.id :=
      LedgerSource.key_injective (Option.some.inj (hexplained.key.symm.trans hkey))
    subst hsrc
    obtain ⟨r₂, g₂, hr₂, -, -, huser, hg₂, hn⟩ := hexplained.grounds
    obtain rfl : r = r₂ := Option.some.inj (hfind.symm.trans hr₂)
    obtain rfl : g = g₂ := Option.some.inj (hg.symm.trans hg₂)
    exact ⟨g, txn, n, hg, hsame ▸ hcharges, by rw [hrefundId, hgid], hn, htxn, huser ▸ hexplained⟩

/-- Whatever operations run at once: behind every request that was processed
there is what it asked for, a grant of its amount to its user, or a refund at its
gateway together with the ledger transaction over what came back. -/
theorem processed_backed (db : Database) (ops : ι → Operation) (hold : RefundTrail db.rows)
    (hledger : LedgerTrail db.rows) (s : Sys Stmt Data RowWrite RowLock Err Unit ι)
    (h : Runs postgres AnyStep (operations db ops) s) :
    ∀ r ∈ s.db .refundRequests, r.status = .PROCESSED →
      (r.type = .CREDITS → GrantBacked r s.db) ∧ (r.type = .PAYMENT → PaymentBacked r s.db) :=
  fun _ hr hstatus => (refundTrail_of_runs hold h).backed (valid_of_operations h).1
    (ledgerTrail_of_runs hledger h) hr hstatus

/-- The request of `denyLast` was reviewed before its credits were moved. -/
theorem denyLast_reviewed :
    ∃ s, Runs postgres AnyStep
        (operations requestedCredits fun i : Fin 3 => .refund "r1" (threeCalls i)) s ∧
      loggedTimes 1 (refundKey "r1") s.db = true ∧
      (∀ g ∈ s.db .gatewayRefunds, ∃ r ∈ s.db .refundRequests,
          r.type = .PAYMENT ∧ r.status ≠ .PENDING ∧ Charges r g) ∧
        ∀ row ∈ s.db .creditTransactions, ∀ id, row.idempotencyKey = some (refundKey id) →
          ∃ r ∈ s.db .refundRequests, r.id = id ∧ r.status ≠ .PENDING ∧
            ownerOf s.db row = some r.userId ∧ row.amount = r.credited := by
  have hplay : (replay postgres anyTime denyLast
      (operations requestedCredits fun i : Fin 3 => .refund "r1" (threeCalls i))).any
      (fun s => loggedTimes 1 (refundKey "r1") s.db) = true := by decide +kernel
  obtain ⟨s, hs, hlogged⟩ := exists_run hplay
  refine ⟨s, hs, hlogged, refunds_reviewed requestedCredits _ (refundTrail_of_none rfl rfl ?_) s hs⟩
  intro r hr
  obtain rfl : r = unreviewedCredits := List.mem_singleton.mp hr
  exact ⟨rfl, by decide⟩

/-- A refund whose commit fails at first is backed in the end. -/
theorem commitFails_backed :
    ∃ s, Runs postgres AnyStep (operations approvedCents fun _ : Fin 2 => .refund "r1" .process) s ∧
      hasStatus "r1" .PROCESSED s.db = true ∧
      ∀ r ∈ s.db .refundRequests, r.status = .PROCESSED →
        (r.type = .CREDITS → GrantBacked r s.db) ∧ (r.type = .PAYMENT → PaymentBacked r s.db) := by
  have hplay : (replay postgres anyTime commitFails
      (operations approvedCents fun _ : Fin 2 => .refund "r1" .process)).any
      (fun s => hasStatus "r1" .PROCESSED s.db) = true := by decide +kernel
  obtain ⟨s, hs, hprocessed⟩ := exists_run hplay
  refine ⟨s, hs, hprocessed, processed_backed approvedCents _ (refundTrail_of_none rfl rfl ?_)
    (ledgerTrail_of_none rfl rfl) s hs⟩
  intro r hr
  obtain rfl : r = fiftyCents := List.mem_singleton.mp hr
  exact ⟨rfl, by decide⟩

end Runs

end PaymentBilling
