import PaymentBilling.Spec.CreditBooks
import PaymentBilling.Spec.Refunds
import PaymentBilling.Transact.Replay

/-!
# Safety.PaymentRefund

Any number of calls on one refund of a payment: what they leave behind.

The gateway answers the same for the key of the request, the ledger accepts its
key once, and the row of the request stays locked from the moment it is given
the gateway's identifier until the transaction ends.  So the credits are taken
back by one client at a time, and each looks the key up before it does so.
-/

namespace PaymentBilling

open Relational Transact

/-- The gateway has refunded under the key of the request. -/
def GatewayRefunded (id : String) (gateway : GatewayRefund) (db : Data) : Prop :=
  schema.find .gatewayRefunds (refundKey id) db = some gateway

/-- The transaction `txnId` debits revenue and credits the asset of `user`. -/
def ReversesPayment (user : String) (n : Int) (txnId : String) (db : Data) : Prop :=
  ∃ debit credit, entriesOf txnId db = [debit, credit] ∧
    debit.entryType = .DEBIT ∧ debit.amount = n ∧
    HasAccount debit.accountId LedgerService.SYSTEM_USER_ID .REVENUE db ∧
    credit.entryType = .CREDIT ∧ credit.amount = n ∧ HasAccount credit.accountId user .ASSET db

/-- The transaction reverses what the gateway has refunded. -/
def RefundPosted (request : RefundRequest) (txn : LedgerTransaction) (db : Data) : Prop :=
  ∃ gateway n, GatewayRefunded request.id gateway db ∧ gateway.refundedAmount = .int n ∧
    ReversesPayment request.userId n txn.id db

/-- The ledger transaction of the request exists. -/
def RefundRecorded (id : String) (db : Data) : Prop :=
  ∃ t ∈ db .ledgerTransactions, t.idempotencyKey = some (refundLedgerKey id)

/-- The request has been given the gateway's identifier. -/
def Paid (id : String) (db : Data) : Prop :=
  ∃ r, schema.find .refundRequests id db = some r ∧ r.paymentRefundId ≠ none

/-- What holds of a refund of a payment that was requested on `db₀`. -/
structure PaymentRefundKept (db₀ : Data) (request : RefundRequest) (db : Data) : Prop where
  le : schema.le db₀ db
  credits : ((db .creditTransactions).filter
    (·.idempotencyKey = some (refundKey request.id))).length ≤ 1
  posted : ∀ t ∈ db .ledgerTransactions, t.idempotencyKey = some (refundLedgerKey request.id) →
    RefundPosted request t db
  paid : ∀ r gid, schema.find .refundRequests request.id db = some r →
    r.paymentRefundId = some gid → RefundRecorded request.id db ∧
      ∃ gateway, GatewayRefunded request.id gateway db ∧ gateway.gatewayRefundId = gid
  processed : ∀ r, schema.find .refundRequests request.id db = some r →
    r.status = .PROCESSED → r.paymentRefundId ≠ none

section Steps

variable {db₀ db db' : Data} {request : RefundRequest} {ws : List RowWrite}

/-- What the gateway has refunded is never changed. -/
theorem GatewayRefunded.mono {id : String} {gateway : GatewayRefund} (hle : schema.le db db')
    (h : GatewayRefunded id gateway db) : GatewayRefunded id gateway db' := by
  obtain ⟨gateway', hf, hfix⟩ := hle _ _ _ h
  have he : gateway' = gateway := hfix
  rw [GatewayRefunded, hf, he]

theorem RefundPosted.mono {txn : LedgerTransaction} (hle : schema.le db db')
    (hentries : entriesOf txn.id db' = entriesOf txn.id db) (h : RefundPosted request txn db) :
    RefundPosted request txn db' := by
  obtain ⟨gateway, n, hg, hn, debit, credit, he, hd, hdn, hda, hc, hcn, hca⟩ := h
  exact ⟨gateway, n, hg.mono hle, hn, debit, credit, hentries.trans he, hd, hdn, hda.mono hle, hc,
    hcn, hca.mono hle⟩

theorem RefundRecorded.mono {id : String} (hv : schema.Valid db) (hle : schema.le db db')
    (h : RefundRecorded id db) : RefundRecorded id db' := by
  obtain ⟨t, ht, hk⟩ := h
  exact ⟨t, mem_of_le hv hle (fun _ => rfl) ht, hk⟩

/-- The step: what a change of the database has to respect. -/
theorem PaymentRefundKept.step (h : PaymentRefundKept db₀ request db) (hv : schema.Valid db)
    (hle : schema.le db db')
    (hcredits : ((db' .creditTransactions).filter
      (·.idempotencyKey = some (refundKey request.id))).length ≤ 1)
    (htxns : ∀ t ∈ db' .ledgerTransactions,
      t.idempotencyKey = some (refundLedgerKey request.id) →
        (t ∈ db .ledgerTransactions ∧ entriesOf t.id db' = entriesOf t.id db) ∨
          RefundPosted request t db')
    (hrows : ∀ r', schema.find .refundRequests request.id db' = some r' →
      ∃ r, schema.find .refundRequests request.id db = some r ∧
        (r'.paymentRefundId = r.paymentRefundId ∨
          ∃ gid, r'.paymentRefundId = some gid ∧ RefundRecorded request.id db' ∧
            ∃ gateway, GatewayRefunded request.id gateway db' ∧ gateway.gatewayRefundId = gid) ∧
        (r'.status = .PROCESSED → r.status = .PROCESSED ∨ r'.paymentRefundId ≠ none)) :
    PaymentRefundKept db₀ request db' ∧ (Paid request.id db → Paid request.id db') := by
  refine ⟨⟨schema.le_trans h.le hle, hcredits, fun t ht hk => ?_, fun r' gid hr' hgid => ?_,
    fun r' hr' hs hnone => ?_⟩, fun ⟨r, hr, hpaid⟩ => ?_⟩
  · rcases htxns t ht hk with ⟨hold, hentries⟩ | hposted
    · exact (h.posted t hold hk).mono hle hentries
    · exact hposted
  · obtain ⟨r, hr, hpaid | ⟨gid', hgid', hdone⟩, -⟩ := hrows r' hr'
    · obtain ⟨hrecorded, gateway, hg, hgid'⟩ := h.paid r gid hr (hpaid ▸ hgid)
      exact ⟨hrecorded.mono hv hle, gateway, hg.mono hle, hgid'⟩
    · obtain rfl := Option.some.inj (hgid.symm.trans hgid')
      exact hdone
  · obtain ⟨r, hr, hpaid, hstatus⟩ := hrows r' hr'
    rcases hstatus hs with hwas | hset
    · rcases hpaid with hpaid | ⟨gid, hgid, -⟩
      · exact h.processed r hr hwas (hpaid ▸ hnone)
      · rw [hnone] at hgid
        cases hgid
    · exact hset hnone
  · obtain ⟨r', hr', -⟩ := hle _ _ _ hr
    refine ⟨r', hr', ?_⟩
    obtain ⟨r₁, hr₁, hpaid' | ⟨gid, hgid, -⟩, -⟩ := hrows r' hr'
    · obtain rfl := Option.some.inj (hr.symm.trans hr₁)
      rw [hpaid']
      exact hpaid
    · rw [hgid]
      exact Option.some_ne_none gid

/-- An update of the row that is not a payment. -/
theorem PaymentRefundKept.update {p : RefundPatch} (h : PaymentRefundKept db₀ request db)
    (hv : schema.Valid db) (hp : ∀ r, (p.apply r).paymentRefundId = r.paymentRefundId)
    (hs : ∀ r, (p.apply r).status = .PROCESSED →
      r.status = .PROCESSED ∨ Paid request.id db) :
    PaymentRefundKept db₀ request (schema.apply (.update .refundRequests request.id p) db) ∧
      (Paid request.id db →
        Paid request.id (schema.apply (.update .refundRequests request.id p) db)) := by
  have hother : ∀ t, t ≠ .refundRequests →
      schema.apply (.update .refundRequests request.id p) db t = db t := fun t ht =>
    apply_update_other ht _ _ _
  refine h.step hv (Schema.le_apply _ _) ?_ (fun t ht _ => .inl ⟨?_, ?_⟩) fun r' hr' => ?_
  · rw [hother .creditTransactions (by decide)]
    exact h.credits
  · rwa [hother .ledgerTransactions (by decide)] at ht
  · rw [entriesOf, hother .ledgerEntries (by decide), entriesOf]
  · obtain ⟨r, hr, rfl⟩ := find_refundUpdate hr'
    refine ⟨r, hr, .inl (hp r), fun hstatus => (hs r hstatus).imp_right ?_⟩
    rintro ⟨r₁, hr₁, hpaid⟩
    obtain rfl := Option.some.inj (hr.symm.trans hr₁)
    rw [hp]
    exact hpaid

/-- Another refund that the gateway executes. -/
theorem PaymentRefundKept.charge {row : GatewayRefund} (h : PaymentRefundKept db₀ request db)
    (hv : schema.Valid db) :
    PaymentRefundKept db₀ request (schema.apply (.insert .gatewayRefunds row) db) ∧
      (Paid request.id db → Paid request.id (schema.apply (.insert .gatewayRefunds row) db)) := by
  have hother : ∀ t, t ≠ .gatewayRefunds →
      schema.apply (.insert .gatewayRefunds row) db t = db t := fun t ht =>
    apply_insert_other ht _ _
  refine h.step hv (Schema.le_apply _ _) ?_ (fun t ht _ => .inl ⟨?_, ?_⟩) fun r' hr' => ?_
  · rw [hother .creditTransactions (by decide)]
    exact h.credits
  · rwa [hother .ledgerTransactions (by decide)] at ht
  · rw [entriesOf, hother .ledgerEntries (by decide), entriesOf]
  · rw [Schema.find, hother .refundRequests (by decide)] at hr'
    exact ⟨r', hr', .inl rfl, .inl⟩

/-- The credits are taken back while the key is unlogged. -/
theorem PaymentRefundKept.deduct {user : String} {n : Int}
    (h : PaymentRefundKept db₀ request db) (hv : schema.Valid db) (hf : locking.fitsAll ws db)
    (hu : CreditsService.Unlogged (refundKey request.id) db)
    (hchange : CreditChange user n (some (refundKey request.id)) ws db) :
    PaymentRefundKept db₀ request (postgres.applyAll ws db) ∧
      (Paid request.id db → Paid request.id (postgres.applyAll ws db)) := by
  refine h.step hv (locking.le_applyAll ws db) ?_ (fun t ht _ => .inl ⟨?_, ?_⟩) fun r' hr' => ?_
  · obtain ⟨log, hlog, -⟩ := hchange.logged hf
    have hnone : (db .creditTransactions).filter
        (·.idempotencyKey = some (refundKey request.id)) = [] := by
      simpa [List.filter_eq_nil_iff, CreditsService.Unlogged] using hu
    rw [hlog, List.filter_append, hnone, List.nil_append]
    exact Nat.le_trans (List.length_filter_le _ [log]) (by simp)
  · rwa [hchange.other (t := .ledgerTransactions) (by decide) (by decide)] at ht
  · rw [entriesOf, hchange.other (t := .ledgerEntries) (by decide) (by decide), entriesOf]
  · rw [Schema.find, hchange.other (t := .refundRequests) (by decide) (by decide)] at hr'
    exact ⟨r', hr', .inl rfl, .inl⟩

/-- The transaction of the refund: the ledger transaction and the gateway's
identifier are committed together. -/
theorem PaymentRefundKept.record {txn : LedgerTransaction} {gateway : GatewayRefund}
    {seen : RefundRequest} {ws₁ ws₂ : List RowWrite} (h : PaymentRefundKept db₀ request db)
    (hv : schema.Valid db) (hf : locking.fitsAll (ws₁ ++ ws₂) db) (hseen : SameRequest request seen)
    (hgateway : GatewayRefunded request.id gateway db)
    (hx : Transferred (RefundsService.refundTransfer seen gateway.refundedAmount) txn ws₁ db)
    (hws : ws₂ = [.update .refundRequests request.id
      (RefundPatch.paymentRefundId gateway.gatewayRefundId)]) :
    PaymentRefundKept db₀ request (postgres.applyAll (ws₁ ++ ws₂) db) ∧
      (Paid request.id db → Paid request.id (postgres.applyAll (ws₁ ++ ws₂) db)) ∧
      Paid request.id (postgres.applyAll (ws₁ ++ ws₂) db) := by
  rw [locking.fitsAll_append] at hf
  have hle := locking.le_applyAll (ws₁ ++ ws₂) db
  rw [postgres.applyAll_append] at hle ⊢
  have htxns := hx.transactions hv hf.1
  have hother : ∀ t, t ∉ ledgerTables → postgres.applyAll ws₁ db t = db t := fun t ht => hx.other ht
  -- the update of the row changes nothing but the row
  have hafter : ∀ t, t ≠ .refundRequests →
      postgres.applyAll ws₂ (postgres.applyAll ws₁ db) t = postgres.applyAll ws₁ db t := by
    intro t ht
    rw [hws]
    exact apply_update_other ht _ _ _
  have hentries : ∀ id, entriesOf id (postgres.applyAll ws₂ (postgres.applyAll ws₁ db)) =
      entriesOf id (postgres.applyAll ws₁ db) := by
    intro id
    rw [entriesOf, hafter .ledgerEntries (by decide), entriesOf]
  have hrow : schema.find .refundRequests request.id (postgres.applyAll ws₁ db) =
      schema.find .refundRequests request.id db := by
    rw [Schema.find, hother .refundRequests (by decide), Schema.find]
  have hkey : (RefundsService.refundTransfer seen gateway.refundedAmount).key =
      some (refundLedgerKey request.id) := by
    rw [← hseen.id]
    rfl
  have hrecorded : RefundRecorded request.id (postgres.applyAll ws₂ (postgres.applyAll ws₁ db)) := by
    refine ⟨txn, ?_, ?_⟩
    · rw [hafter .ledgerTransactions (by decide)]
      rcases htxns with ⟨he, -, hmem, -⟩ | ⟨he, -⟩
      · rwa [he]
      · rw [he]
        exact List.mem_append_right _ (List.mem_singleton.mpr rfl)
    · rcases htxns with ⟨-, -, -, k, hk, hk'⟩ | ⟨-, hk, -⟩
      · rw [hk', ← hk, hkey]
      · rw [hk, hkey]
  have hstep := h.step hv hle ?_ (fun t ht hk => ?_) fun r' hr' => ?_
  · refine ⟨hstep.1, hstep.2, ?_⟩
    obtain ⟨old, hold, -⟩ : ∃ old, schema.find .refundRequests request.id
        (postgres.applyAll ws₁ db) = some old ∧ True := by
      rw [hws] at hf
      obtain ⟨old, hold, -⟩ := Schema.accepts_update.mp hf.2.1
      exact ⟨old, hold, trivial⟩
    refine ⟨(RefundPatch.paymentRefundId gateway.gatewayRefundId).apply old, ?_, Option.some_ne_none _⟩
    rw [hws, applyAll_single, find_refundPatch, hold, Option.map_some]
  · rw [hafter .creditTransactions (by decide), hother .creditTransactions (by decide)]
    exact h.credits
  · rw [hafter .ledgerTransactions (by decide)] at ht
    rw [hentries]
    rcases htxns with ⟨he, hsame, -⟩ | ⟨he, -, hfresh, hsame, user₁, user₂, id₁, id₂, lines, hu₁, hu₂,
      hacc₁, hacc₂, hnew, hlines⟩
    · rw [he] at ht
      exact .inl ⟨ht, hsame t.id⟩
    · rw [he] at ht
      rcases List.mem_append.mp ht with ht | ht
      · exact (hfresh _ hkey t ht hk).elim
      · -- the new transaction has the two entries of the refund
        obtain rfl := List.mem_singleton.mp ht
        obtain rfl : seen.userId = user₁ := by simpa [RefundsService.refundTransfer] using hu₁
        obtain rfl : LedgerService.SYSTEM_USER_ID = user₂ := by
          simpa [RefundsService.refundTransfer] using hu₂
        cases hlines with
        | @cons _ debit _ _ hdebit hrest =>
            cases hrest with
            | @cons _ credit _ _ hcredit hnil =>
                cases hnil
                have hamount : gateway.refundedAmount = .int debit.entry.amount := hdebit.amount
                have hsame : credit.entry.amount = debit.entry.amount :=
                  Js.int_inj.mp (hcredit.amount.symm.trans hamount)
                have hle₂ : locking.le (postgres.applyAll ws₁ db)
                    (postgres.applyAll ws₂ (postgres.applyAll ws₁ db)) := locking.le_applyAll _ _
                refine .inr ⟨gateway, debit.entry.amount, hgateway.mono hle, hamount, debit.entry,
                  credit.entry, ?_, hdebit.entryType, rfl, ?_, hcredit.entryType, hsame, ?_⟩
                · rw [hentries, hnew]
                  rfl
                · rw [hdebit.accountId]
                  exact hacc₂.mono hle₂
                · rw [hcredit.accountId, ← hseen.userId]
                  exact hacc₁.mono hle₂
  · rw [hws] at hr'
    obtain ⟨old, hold, rfl⟩ := find_refundUpdate hr'
    rw [hrow] at hold
    exact ⟨old, hold, .inr ⟨_, rfl, hrecorded, gateway, hgateway.mono hle, rfl⟩,
      fun _ => .inr (Option.some_ne_none _)⟩

end Steps

/-! ## The calls -/

/-- What the row of the request is locked by. -/
abbrev requestLock (id : String) : RowLock := .row .refundRequests id

/-- Nobody takes the gateway's identifier away, and the credits are taken back
by the client that has the row of the request locked. -/
def paymentProtocol (db₀ : Data) (request : RefundRequest) :
    Protocol locking (PaymentRefundKept db₀ request) where
  env c db db' := (Paid request.id db → Paid request.id db') ∧
    (requestLock request.id ∈ heldBy c.stack →
      CreditsService.Unlogged (refundKey request.id) db →
        CreditsService.Unlogged (refundKey request.id) db')
  guar c db db' := (Paid request.id db → Paid request.id db') ∧
    (requestLock request.id ∉ heldBy c.stack →
      CreditsService.Unlogged (refundKey request.id) db →
        CreditsService.Unlogged (refundKey request.id) db')
  env_refl _ _ := ⟨fun h => h, fun _ h => h⟩
  env_trans h h' := ⟨fun hp => h'.1 (h.1 hp), fun hl hu => h'.2 hl (h.2 hl hu)⟩
  guar_refl _ _ := ⟨fun h => h, fun _ h => h⟩

/-- The lock keeps the clients apart. -/
def paymentContract (db₀ : Data) (request : RefundRequest) (ι : Type) :
    Contract locking (PaymentRefundKept db₀ request) ι where
  proto _ := paymentProtocol db₀ request
  apart _ _ _ _ := True
  apart_symm _ := trivial
  compat _ _ hlocks _ _ _ hguar :=
    ⟨hguar.1, fun hl => hguar.2 fun hl' => hlocks _ hl' hl⟩

section Calls

variable {db₀ : Data} {request seen : RefundRequest} {trace : List (Event Stmt Err)} {db : Data}

/-- A step that keeps the request and does not touch the log of the credits. -/
theorem keeps_of_step {c : LocalState} {db' : Data}
    (h : PaymentRefundKept db₀ request db' ∧ (Paid request.id db → Paid request.id db'))
    (hlog : db' .creditTransactions = db .creditTransactions) :
    (paymentProtocol db₀ request).Keeps c db db' := by
  refine ⟨h.1, h.2, fun _ hu => ?_⟩
  rw [CreditsService.Unlogged, hlog]
  exact hu

/-- Inside its transaction a client takes the credits back once at most. -/
theorem wp_deductRefunded {t : Tx RowWrite RowLock} {ts : List (Tx RowWrite RowLock)}
    (hsame : SameRequest request seen) (hlock : requestLock request.id ∈ t.held) :
    (paymentProtocol db₀ request).wp (RefundsService.deductRefunded seen)
      (fun r c' _ => ∀ b, r = .ok b → c'.stack = t :: ts) ⟨t :: ts, trace⟩ db := by
  unfold RefundsService.deductRefunded
  rw [Protocol.wp_tryCatch, Protocol.wp_bind]
  have hkey : CreditsService.givenKey (some ("refund_" ++ seen.id)) =
      some (refundKey request.id) := by
    rw [hsame.id]
    exact CreditsService.givenKey_append (by decide)
  refine CreditsService.wp_deductCredits _ (K := fun _ => True)
    (N := CreditsService.Unlogged (refundKey request.id)) (fun _ _ _ _ _ _ => trivial) trivial
    (fun k hk db' _ hu => ?_) (fun k hk c' db₁ db₂ hc hs hu => ?_) (fun e c' db' hc _ _ _ _ => hc)
    (fun r c' db' k _ hc _ _ _ _ => hc) (fun r t' c' db₁ user n _ _ _ hstack hu hs _ hchange =>
      ⟨?_, fun _ _ => rfl⟩)
  · rw [hkey] at hk
    rwa [Option.some.inj hk]
  · obtain ⟨t', ht'⟩ := hc.stack
    refine hs.env.2 ?_ hu
    rw [ht']
    exact List.mem_append_right _ (List.mem_append_left _ hlock)
  · have hheld : requestLock request.id ∈ heldBy c'.stack := by
      rw [hstack]
      exact List.mem_append_right _ (List.mem_append_left _ hlock)
    rw [hkey] at hchange
    have hstep := hs.inv.deduct hs.valid (hs.fits hstack) (hu _ hkey).2 hchange
    exact ⟨hstep.1, hstep.2, fun hnot => (hnot hheld).elim⟩

/-- The database transaction of a refund that the gateway has executed. -/
theorem wp_recordRefund {gateway : GatewayRefund} (hsame : SameRequest request seen)
    (hgateway : GatewayRefunded request.id gateway db) :
    (paymentProtocol db₀ request).wp
      (RefundsService.recordRefund seen ⟨gateway.gatewayRefundId, gateway.refundedAmount⟩)
      (fun r _ db' => ∀ a, r = .ok a → Paid request.id db') ⟨[], trace⟩ db := by
  refine Protocol.wp_transaction_of_does_bind
    (RefundsService.does_recordRows seen ⟨gateway.gatewayRefundId, gateway.refundedAmount⟩)
    (fun _ => (deductRefunded_offLedger seen).mono fun _ _ _ => trivial)
    (fun a t c₁ db₁ hstack _ _ hok hx => ?_) (fun e c' db' _ => nofun)
    (fun a b t c' db' hstack _ hle hs hfits hx => ?_)
  · -- the row of the request has been written, so it is locked
    obtain ⟨response, ws₁, ws₂, hws, -, rfl⟩ := hx
    have hlock : requestLock request.id ∈ t.held := by
      rw [hstack] at hok
      refine hok.covered t (.head _)
        (.update .refundRequests seen.id (RefundPatch.paymentRefundId gateway.gatewayRefundId)) ?_ _ ?_
      · rw [hws]
        exact List.mem_append_right _ (.head _)
      · rw [hsame.id]
        exact .head _
    obtain ⟨stack, trace₁⟩ := c₁
    obtain rfl : stack = [t] := hstack
    exact wp_deductRefunded hsame hlock
  · obtain ⟨response, ws₁, ws₂, hws, htransfer, hpaid⟩ := hx
    obtain rfl : ws₂ = [.update .refundRequests seen.id
      (RefundPatch.paymentRefundId gateway.gatewayRefundId)] := hpaid
    rw [hws] at hfits
    have hview : postgres.view t db' = postgres.applyAll (ws₁ ++ [.update .refundRequests seen.id
        (RefundPatch.paymentRefundId gateway.gatewayRefundId)]) db' := by
      rw [Engine.view, hws]
    rw [hview]
    have hrecord := hs.inv.record hs.valid hfits hsame (hgateway.mono hle)
      (transferred_of_rel htransfer) (by rw [hsame.id])
    refine ⟨keeps_of_step ⟨hrecord.1, hrecord.2.1⟩ ?_, fun _ _ => hrecord.2.2⟩
    rw [postgres.applyAll_append, applyAll_single, apply_update_other (by decide)]
    exact (transferred_of_rel htransfer).other (by decide)

/-- A refund at the gateway, and what comes after it. -/
theorem wp_processPaymentRefund (hsame : SameRequest request seen)
    (hseen : schema.find .refundRequests request.id db = some seen) :
    (paymentProtocol db₀ request).wp (RefundsService.processPaymentRefund seen)
      (fun r _ db' => ∀ a, r = .ok a → Paid request.id db') ⟨[], trace⟩ db := by
  unfold RefundsService.processPaymentRefund
  split
  · next hpaid =>
    refine fun _ _ => ⟨seen, hseen, fun hnone => ?_⟩
    rw [hnone] at hpaid
    cases hpaid
  · split
    · exact fun _ h => by cases h
    · split
      · exact fun _ h => by cases h
      · rw [Protocol.wp_bind]
        unfold RefundsService.refundCharge
        rw [Protocol.wp_bind]
        refine Protocol.wp_exec_auto _ (fun e db₁ _ _ h => by cases h) fun env r ws db₁ hs₁ hx => ?_
        obtain ⟨gateway, rfl, hkey, hrow⟩ := exec_refundCharge hx
        have hkey : gateway.idempotencyKey = refundKey request.id := by rw [hkey, hsame.id]; rfl
        have hcharged : (paymentProtocol db₀ request).Keeps ⟨[], trace⟩ db₁
              (postgres.applyAll ws db₁) ∧
            GatewayRefunded request.id gateway (postgres.applyAll ws db₁) := by
          rcases hrow with ⟨hfound, rfl⟩ | ⟨hnone, rfl⟩
          · refine ⟨Protocol.keeps_refl _ hs₁.inv, ?_⟩
            rw [GatewayRefunded, ← hsame.id]
            exact hfound
          · refine ⟨keeps_of_step (hs₁.inv.charge hs₁.valid) ?_, ?_⟩
            · rw [applyAll_single, apply_insert_other (by decide)]
            have hfresh : schema.find .gatewayRefunds (refundKey request.id) db₁ = none := by
              rw [← hsame.id]
              exact hnone
            rw [GatewayRefunded, applyAll_single, Schema.find_insert, hfresh, ← hkey]
            simp [schema]
        refine ⟨hcharged.1, ?_⟩
        cases henv : env.lost with
        | some message => exact fun _ h => by cases h
        | none => exact wp_recordRefund hsame hcharged.2

/-- Every call keeps what there is to keep about the request. -/
theorem wp_refundCall_payment
    (hrequest : schema.find .refundRequests request.id db₀ = some request)
    (htype : request.type = .PAYMENT) (call : RefundCall) (db : Data) :
    (paymentProtocol db₀ request).wp (call.run request.id) (fun _ _ _ => True) {} db := by
  -- an update of the row that is not a payment
  have hupdate : ∀ {c : LocalState} {db : Data} {p : RefundPatch}, locking.valid db →
      PaymentRefundKept db₀ request db → (∀ r, (p.apply r).paymentRefundId = r.paymentRefundId) →
      (∀ r, (p.apply r).status = .PROCESSED → r.status = .PROCESSED ∨ Paid request.id db) →
      (paymentProtocol db₀ request).Keeps c db
        (schema.apply (.update .refundRequests request.id p) db) :=
    fun hv hi hp hs => keeps_of_step (hi.update hv hp hs) (apply_update_other (by decide) _ _ _)
  cases call with
  | approve adminId notes =>
      refine RefundsService.wp_review _ (fun _ _ _ => trivial) fun _ _ _ _ _ _ _ _ hs => ⟨?_, trivial⟩
      refine hupdate hs.valid hs.inv (fun _ => rfl) fun r hr => ?_
      have hr : RefundStatus.APPROVED = .PROCESSED := hr
      cases hr
  | deny adminId notes =>
      show (paymentProtocol db₀ request).wp (RefundsService.denyRefund _ _ _) _ _ _
      unfold RefundsService.denyRefund
      split
      · trivial
      · refine RefundsService.wp_review _ (fun _ _ _ => trivial)
          fun _ _ _ _ _ _ _ _ hs => ⟨?_, trivial⟩
        refine hupdate hs.valid hs.inv (fun _ => rfl) fun r hr => ?_
        have hr : RefundStatus.DENIED = .PROCESSED := hr
        cases hr
  | process =>
      refine RefundsService.wp_processRefund _ (G := fun _ _ db => Paid request.id db)
        (fun _ _ _ => trivial) (fun seen db₁ hs₁ hseen _ => ?_)
        (fun seen message now events db₁ db₂ _ hs₂ => ?_)
        (fun seen r now events db₁ db₂ _ _ hpaid hs₂ => ⟨?_, trivial⟩)
      · have hsame := sameRequest_of_le hs₁.inv.le hrequest hseen
        have hdispatch : RefundsService.dispatch seen = RefundsService.processPaymentRefund seen := by
          unfold RefundsService.dispatch
          rw [hsame.type, htype]
        rw [hdispatch]
        exact wp_processPaymentRefund hsame hseen
      · exact hupdate hs₂.valid hs₂.inv (fun _ => rfl) fun _ h => .inl h
      · exact hupdate hs₂.valid hs₂.inv (fun _ => rfl) fun _ _ => .inr (hs₂.env.1 hpaid)

end Calls

/-- The ledger transactions of the request `id`. -/
def refundTransactions (id : String) (db : Data) : List LedgerTransaction :=
  (db .ledgerTransactions).filter (·.idempotencyKey = some (refundLedgerKey id))

theorem refundTransactions_le_one (id : String) {db : Data} (hv : schema.Valid db) :
    (refundTransactions id db).length ≤ 1 := by
  refine hv.length_filter_le_one (t := .ledgerTransactions)
    (k := .idempotencyKey (refundLedgerKey id)) fun txn htxn => ?_
  simp [schema, of_decide_eq_true htxn]

/-- In every run of calls on one refund of a payment, the ledger has one
transaction for it at most and the credits are taken back once at most; and a
refund that is processed has its transaction, which reverses the payment by
what the gateway has refunded, and the gateway's identifier. -/
theorem paymentRefund_once {ι : Type} [DecidableEq ι] (db : Database) (request : RefundRequest)
    (calls : ι → RefundCall)
    (hrequest : schema.find .refundRequests request.id db.rows = some request)
    (htype : request.type = .PAYMENT) (hstatus : request.status ≠ .PROCESSED)
    (hpaid : request.paymentRefundId = none)
    (hledger : refundTransactions request.id db.rows = [])
    (hkey : CreditsService.Unlogged (refundKey request.id) db.rows)
    (s : Sys Stmt Data RowWrite RowLock Err RefundRequest ι)
    (h : Runs postgres AnyStep (refundSystem db request.id calls) s) :
    (refundTransactions request.id s.db).length ≤ 1 ∧
      ((s.db .creditTransactions).filter
        (·.idempotencyKey = some (refundKey request.id))).length ≤ 1 ∧
      ∀ r, schema.find .refundRequests request.id s.db = some r → r.status = .PROCESSED →
        ∃ txn gateway n, refundTransactions request.id s.db = [txn] ∧
          GatewayRefunded request.id gateway s.db ∧
          r.paymentRefundId = some gateway.gatewayRefundId ∧ gateway.refundedAmount = .int n ∧
          ReversesPayment request.userId n txn.id s.db := by
  have hstart : PaymentRefundKept db.rows request db.rows := by
    refine ⟨Schema.le_refl _, ?_, fun t ht hk => ?_, fun r gid hr hgid => ?_, fun r hr hs => ?_⟩
    · have hnone : (db.rows .creditTransactions).filter
          (·.idempotencyKey = some (refundKey request.id)) = [] := by
        simpa [List.filter_eq_nil_iff, CreditsService.Unlogged] using hkey
      rw [hnone]
      exact Nat.zero_le 1
    · have hmem : t ∈ refundTransactions request.id db.rows :=
        List.mem_filter.mpr ⟨ht, decide_eq_true hk⟩
      rw [hledger] at hmem
      cases hmem
    · rw [hrequest] at hr
      obtain rfl := Option.some.inj hr
      rw [hpaid] at hgid
      cases hgid
    · rw [hrequest] at hr
      obtain rfl := Option.some.inj hr
      exact (hstatus hs).elim
  have hsafe : (paymentContract db.rows request ι).Safe (fun _ _ _ _ => True)
      (refundSystem db request.id calls) :=
    .start db.valid hstart (fun _ _ _ => trivial)
      fun i => wp_refundCall_payment hrequest htype (calls i) _
  have hruns : Runs postgres (paymentContract db.rows request ι).Clean
      (refundSystem db request.id calls) s := h.mono fun _ _ _ _ _ _ _ _ => trivial
  obtain ⟨hs, -⟩ := hsafe.runs (T := fun _ _ => True) (fun _ _ _ _ _ _ _ _ h => h) (fun _ => trivial)
    (fun _ _ => trivial) (fun _ _ _ _ => trivial) hruns
  have hone := refundTransactions_le_one request.id hs.ok.valid
  refine ⟨hone, hs.inv.credits, fun r hr hprocessed => ?_⟩
  obtain ⟨gid, hgid⟩ := Option.ne_none_iff_exists'.mp (hs.inv.processed r hr hprocessed)
  obtain ⟨⟨txn, htxn, hk⟩, gateway, hgateway, rfl⟩ := hs.inv.paid r gid hr hgid
  obtain ⟨gateway', n, hgateway', hn, hreverses⟩ := hs.inv.posted txn htxn hk
  obtain rfl : gateway = gateway' := Option.some.inj (hgateway.symm.trans hgateway')
  refine ⟨txn, gateway, n, ?_, hgateway, hgid, hn, hreverses⟩
  have hmem : txn ∈ refundTransactions request.id s.db :=
    List.mem_filter.mpr ⟨htxn, decide_eq_true hk⟩
  obtain ⟨t, ht⟩ := List.length_eq_one_iff.mp
    (Nat.le_antisymm hone (List.length_pos_of_mem hmem))
  rw [ht] at hmem ⊢
  rw [List.mem_singleton.mp hmem]

/-! ## A commit that fails -/

/-- A request for a refund of 50 cents. -/
def fiftyCents : RefundRequest where
  id := "r1"
  userId := "user"
  type := .PAYMENT
  amount := 50
  reason := "unused"
  status := .APPROVED
  reviewedBy := some "test-admin-1"
  reviewedAt := some 0
  reviewNotes := none
  paymentRefundId := none
  gatewayType := some .AUTHORIZE_NET
  originalGatewayTransactionId := some "charge_1"
  processAttempts := 0
  lastProcessError := none

/-- A database in which it has been approved. -/
def approvedCents : Database :=
  .ofWrites [.insert .users ⟨"user"⟩, .insert .users ⟨LedgerService.SYSTEM_USER_ID⟩,
    .insert .credits ⟨"c1", "user", 80⟩, .insert .refundRequests fiftyCents] (by decide)

/-- The first call fails at the commit of its ledger transaction, when the
gateway has refunded and the credits are taken back; the second starts over. -/
def commitFails : List (Fin 2 × Choice Env) :=
  List.replicate 21 (0, .go (.ordinary "a")) ++ [(0, .fail "connection lost")] ++
    [(0, .go (.ordinary "a"))] ++ List.replicate 21 (1, .go (.ordinary "b"))

/-- The second call completes the refund. -/
theorem commitFails_once :
    ∃ s, Runs postgres AnyStep
        (refundSystem approvedCents fiftyCents.id fun _ : Fin 2 => .process) s ∧
      hasStatus "r1" .PROCESSED s.db = true ∧
      (refundTransactions "r1" s.db).length ≤ 1 ∧
      ((s.db .creditTransactions).filter (·.idempotencyKey = some (refundKey "r1"))).length ≤ 1 ∧
      ∀ r, schema.find .refundRequests "r1" s.db = some r → r.status = .PROCESSED →
        ∃ txn gateway n, refundTransactions "r1" s.db = [txn] ∧
          GatewayRefunded "r1" gateway s.db ∧ r.paymentRefundId = some gateway.gatewayRefundId ∧
          gateway.refundedAmount = .int n ∧ ReversesPayment "user" n txn.id s.db := by
  have hplay : (replay postgres anyTime commitFails
      (refundSystem approvedCents fiftyCents.id fun _ => .process)).any
      (fun s => hasStatus "r1" .PROCESSED s.db) = true := by decide +kernel
  obtain ⟨s, hs, hprocessed⟩ := exists_run hplay
  exact ⟨s, hs, hprocessed, paymentRefund_once approvedCents fiftyCents (fun _ => .process) rfl rfl
    (by decide) rfl rfl (by intro row hrow; cases hrow) s hs⟩

end PaymentBilling
