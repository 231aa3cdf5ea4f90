import PaymentBilling.Safety.LedgerTrail
import PaymentBilling.Safety.RequestLifecycle

/-!
# Safety.DisputeTrail

The life of a dispute, among any operations.

A commit opens a dispute for the delivery of a chargeback, points it to its
reversal, records that evidence was submitted or resolves it (`DisputeChange`).
Whatever a dispute says of itself is backed by the rows that it says it of.
-/

namespace PaymentBilling

open Relational Transact AuthorizeNetWebhookController

/-! ## Steps of a dispute -/

/-- The event disputes the charge, for the user and the amount. -/
structure Disputes (op : Operation) (d : Dispute) : Prop where
  event : ∃ config req data, op = .card config req ∧
    EventType.ofJs req.body.type = .chargebackReceived ∧ req.body.data = some data ∧
    data.userId = .str d.userId ∧ data.transactionId = .str d.originalTransactionId ∧
    data.amount = .int d.amount

/-- What a commit of the operation does to a dispute, that it leaves as `d'`. -/
inductive DisputeChange (op : Operation) (db db' : Data) (d' : Dispute) : Prop
  | kept (same : schema.find .disputes d'.id db = some d')
  | opened (disputes : Disputes op d') (status : d'.status = .OPEN)
  | linked (d : Dispute) (txnId : String) (before : schema.find .disputes d'.id db = some d)
      (after : d' = (DisputePatch.ledgerReversalTxnId txnId).apply d)
  | submitted (d : Dispute) (before : schema.find .disputes d'.id db = some d)
      (evidence : Evidenced d'.id db) (after : d' = DisputePatch.evidenceSubmitted.apply d)
  | resolved (d : Dispute) (o : DisputeOutcome) (now : Int)
      (before : schema.find .disputes d'.id db = some d) (call : op = .dispute d'.id (.outcome o))
      (booked : HasKey (outcomeKey d'.id o) db') (after : d' = (DisputePatch.resolve o.status now).apply d)

section Steps

variable {op : Operation} {db db' db₁ : Data} {ws : List RowWrite} {d d' : Dispute} {id : String}

theorem Disputes.same (h : Disputes op d) (hsame : SameDispute d d') : Disputes op d' where
  event := by
    obtain ⟨config, req, data, hop, htype, hdata, huser, htxn, hamount⟩ := h.event
    exact ⟨config, req, data, hop, htype, hdata, hsame.userId ▸ huser, hsame.originalTransactionId ▸ htxn,
      hsame.amount ▸ hamount⟩

/-- What the delivery of a chargeback does to the disputes. -/
theorem disputeChange_delivery {config : AuthorizeNetConfig} {req : AuthorizeNetRequest}
    {data : AuthorizeNetData} {r : Option Dispute} (hop : op = .card config req)
    (htype : EventType.ofJs req.body.type = .chargebackReceived) (hdata : req.body.data = some data)
    (hx : (deliveryEffect data).rel r ws db)
    (hd : schema.find .disputes d'.id (postgres.applyAll ws db) = some d') :
    DisputeChange op db (postgres.applyAll ws db) d' := by
  obtain ⟨ws₀, rest, rfl, hrecord, hrest⟩ := delivery_cases hx
  have hsame : ∀ id, schema.find .disputes id (postgres.applyAll ws₀ db) = schema.find .disputes id db := by
    intro id
    rw [Schema.find, applyAll_other fun w hw => by rw [hrecord w hw]; decide, ← Schema.find]
  rcases hrest with rfl | ⟨d, txn, dispute, transfer, rfl, hgate, hdispute, htransfer⟩
  · rw [List.append_nil, hsame] at hd
    exact .kept hd
  rw [postgres.applyAll_append, postgres.applyAll_append, postgres.applyAll_append, applyAll_single] at hd
  have hrow : schema.find .disputes d'.id (postgres.applyAll dispute (postgres.applyAll ws₀ db)) = some d' ∨
      ∃ old, schema.find .disputes d'.id (postgres.applyAll dispute (postgres.applyAll ws₀ db)) = some old ∧
        d' = (DisputePatch.ledgerReversalTxnId txn.id).apply old := by
    rcases find_patched hd with ⟨-, hd⟩ | ⟨-, old, hold, hd⟩
    · rw [Schema.find, htransfer.other (by decide)] at hd
      exact .inl hd
    · rw [Schema.find, htransfer.other (by decide)] at hold
      exact .inr ⟨old, hold, hd⟩
  cases hdispute with
  | found _ _ _ =>
      rcases hrow with hkept | ⟨old, hold, hafter⟩
      · exact .kept ((hsame _).symm.trans hkept)
      · exact .linked old txn.id ((hsame _).symm.trans hold) hafter
  | opened hnew =>
      have hevent : Disputes op d := ⟨config, req, data, hop, htype, hdata, hnew.userId,
        hnew.originalTransactionId, hnew.amount⟩
      have hfind : ∀ {row : Dispute}, schema.find .disputes d'.id (postgres.applyAll [.insert .disputes d]
          (postgres.applyAll ws₀ db)) = some row → schema.find .disputes d'.id db = some row ∨ row = d := by
        intro row hrow
        rw [applyAll_single, Schema.find_insert, hsame] at hrow
        cases hold : schema.find .disputes d'.id db with
        | some old =>
            rw [hold] at hrow
            exact .inl hrow
        | none =>
            rw [hold] at hrow
            simp only [Option.none_or, Option.ite_none_right_eq_some, Option.some.injEq] at hrow
            exact .inr hrow.2.symm
      rcases hrow with hkept | ⟨old, hold, hafter⟩
      · rcases hfind hkept with hkept | rfl
        · exact .kept hkept
        · exact .opened hevent hnew.status
      · rcases hfind hold with hold | rfl
        · exact .linked old txn.id hold hafter
        · refine .opened (hevent.same ?_) ?_
          · rw [hafter]
            exact ⟨rfl, rfl, rfl, rfl, rfl⟩
          · rw [hafter]
            exact hnew.status

/-- What a commit does to the disputes. -/
theorem Commit.dispute_change (h : Commit op db ws) (hv : schema.Valid db) (hfits : locking.fitsAll ws db)
    (hd : schema.find .disputes d'.id (postgres.applyAll ws db) = some d') :
    DisputeChange op db (postgres.applyAll ws db) d' := by
  have hkept : postgres.applyAll ws db .disputes = db .disputes →
      DisputeChange op db (postgres.applyAll ws db) d' := fun hsame =>
    .kept (by rw [Schema.find, hsame] at hd; exact hd)
  cases h with
  | plain tables => exact hkept (applyAll_plain tables (by decide))
  | credits src user n _ _ change => exact hkept (change.other (by decide) (by decide))
  | request userId data r _ _ => exact hkept (applyAll_other (by simp [Write.table]))
  | review id review p _ _ => exact hkept (applyAll_other (by simp [Write.table]))
  | charge seen g _ _ _ _ => exact hkept (applyAll_other (by simp [Write.table]))
  | paid seen g txn _ _ _ _ transferred _ =>
      refine hkept ?_
      rw [postgres.applyAll_append, applyAll_single, apply_update_other (by decide)]
      exact transferred.other (by decide)
  | failed seen message _ _ => exact hkept (applyAll_other (by simp [Write.table]))
  | processed seen _ _ _ => exact hkept (applyAll_other (by simp [Write.table]))
  | chargeback config req data r call type body delivery _ =>
      exact disputeChange_delivery call type body delivery hd
  | submitted e _ => exact hkept (applyAll_other (by simp [Write.table]))
  | evidence id evidence call submitted =>
      rcases find_patched hd with ⟨-, hd⟩ | ⟨hid, d, hd, hafter⟩
      · exact .kept hd
      · exact .submitted d hd (hid ▸ submitted) hafter
  | outcome seen o fee now txn call stays transferred _ =>
      rw [locking.fitsAll_append] at hfits
      rw [postgres.applyAll_append, applyAll_single] at hd ⊢
      rcases find_patched hd with ⟨-, hd⟩ | ⟨hid, d, hd, hafter⟩
      · rw [Schema.find, transferred.other (by decide)] at hd
        exact .kept hd
      · rw [Schema.find, transferred.other (by decide)] at hd
        refine .resolved d o now hd (hid ▸ call) ⟨txn, ?_⟩ hafter
        rw [apply_update_other (by decide), hid]
        cases o <;> exact transferred.recorded hv hfits.1 rfl

end Steps

/-! ## The trail -/

/-- Disputes say what became of them. -/
structure DisputeTrail (db : Data) : Prop where
  submitted : ∀ d ∈ db .disputes, d.status = .EVIDENCE_SUBMITTED → Evidenced d.id db
  resolved : ∀ d ∈ db .disputes, ∀ o : DisputeOutcome, d.status = o.status →
    d.resolvedAt ≠ none ∧ HasKey (outcomeKey d.id o) db

section Trail

variable {op : Operation} {db db' : Data} {ws : List RowWrite} {d d' : Dispute}

theorem disputeTrail_of_none (h : db .disputes = []) : DisputeTrail db where
  submitted d hd := by
    rw [h] at hd
    cases hd
  resolved d hd := by
    rw [h] at hd
    cases hd

theorem DisputeOutcome.status_injective {o o' : DisputeOutcome} (h : o.status = o'.status) : o = o' := by
  cases o <;> cases o' <;> simp_all [DisputeOutcome.status]

theorem DisputeTrail.submitted_change (h : DisputeTrail db) (hle : schema.le db db')
    (hchange : DisputeChange op db db' d') (hstatus : d'.status = .EVIDENCE_SUBMITTED) :
    Evidenced d'.id db' := by
  have hold : ∀ {d : Dispute}, schema.find .disputes d'.id db = some d →
      d.status = .EVIDENCE_SUBMITTED → Evidenced d'.id db' := by
    intro d hd hstatus
    have hevidence := h.submitted d (Schema.mem_of_find hd) hstatus
    have hid : d.id = d'.id := Schema.id_of_find hd
    exact hid ▸ hevidence.mono hle
  cases hchange with
  | kept same => exact hold same hstatus
  | opened disputes status =>
      rw [status] at hstatus
      cases hstatus
  | linked d txnId before after =>
      rw [after] at hstatus
      exact hold before hstatus
  | submitted d before evidence after => exact evidence.mono hle
  | resolved d o now before call booked after =>
      rw [after] at hstatus
      cases o <;> cases hstatus

theorem DisputeTrail.resolved_change (h : DisputeTrail db) (hv : schema.Valid db) (hle : schema.le db db')
    (hchange : DisputeChange op db db' d') {o : DisputeOutcome} (hstatus : d'.status = o.status) :
    d'.resolvedAt ≠ none ∧ HasKey (outcomeKey d'.id o) db' := by
  have hold : ∀ {d : Dispute}, schema.find .disputes d'.id db = some d → d.status = o.status →
      d.resolvedAt = d'.resolvedAt → d'.resolvedAt ≠ none ∧ HasKey (outcomeKey d'.id o) db' := by
    intro d hd hstatus hat
    obtain ⟨hresolved, hkey⟩ := h.resolved d (Schema.mem_of_find hd) o hstatus
    have hid : d.id = d'.id := Schema.id_of_find hd
    exact ⟨hat ▸ hresolved, hid ▸ hkey.mono hv hle⟩
  cases hchange with
  | kept same => exact hold same hstatus rfl
  | opened disputes status =>
      rw [status] at hstatus
      cases o <;> cases hstatus
  | linked d txnId before after =>
      rw [after] at hstatus
      exact hold before hstatus (by rw [after]; rfl)
  | submitted d before evidence after =>
      rw [after] at hstatus
      cases o <;> cases hstatus
  | resolved d o' now before call booked after =>
      have hsame : o' = o := DisputeOutcome.status_injective (by rw [← hstatus, after]; rfl)
      refine ⟨?_, hsame ▸ booked⟩
      rw [after]
      simp [DisputePatch.apply]

/-- Commits keep the trail. -/
theorem Commit.disputeTrail (h : Commit op db ws) (hv : schema.Valid db) (hfits : locking.fitsAll ws db)
    (htrail : DisputeTrail db) : DisputeTrail (postgres.applyAll ws db) := by
  have hle := locking.le_applyAll ws db
  have hchange : ∀ d ∈ postgres.applyAll ws db .disputes,
      DisputeChange op db (postgres.applyAll ws db) d := fun d hd =>
    h.dispute_change hv hfits ((locking.valid_applyAll hfits hv).find_of_mem hd)
  exact {
    submitted := fun d hd hstatus => htrail.submitted_change hle (hchange d hd) hstatus
    resolved := fun d hd o hstatus => htrail.resolved_change hv hle (hchange d hd) hstatus }

/-! ## What is behind a dispute -/

/-- The charge that the dispute is named after is reversed for its user and by
its amount, and the dispute points to the reversal. -/
def ReversalBacked (d : Dispute) (db : Data) : Prop :=
  d.gatewayDisputeId = gatewayDisputeKey d.originalTransactionId ∧
    ∃ txn ∈ db .ledgerTransactions, d.ledgerReversalTxnId = some txn.id ∧
      Explained (.chargeback d.originalTransactionId) txn d.userId d.amount db

/-- The outcome is in the ledger: what was won is what was disputed. -/
def OutcomeBacked (d : Dispute) (o : DisputeOutcome) (db : Data) : Prop :=
  d.resolvedAt ≠ none ∧ ∃ txn ∈ db .ledgerTransactions, ∃ n,
    Explained (.outcome d.id o) txn d.userId n db ∧ (o = .WON → n = d.amount)

theorem LedgerTrail.reversal (h : LedgerTrail db) (hv : schema.Valid db) (hd : d ∈ db .disputes) :
    ReversalBacked d db := by
  obtain ⟨transactionId, hgateway, txn, htxn, hkey, hlink⟩ := h.linked d hd
  obtain ⟨src, user, n, hexplained⟩ := h.explained txn htxn
  have hsrc : src = .chargeback transactionId :=
    LedgerSource.key_injective (Option.some.inj (hexplained.key.symm.trans hkey))
  subst hsrc
  obtain ⟨id, d', hd', horiginal, hgateway', huser, hn⟩ := hexplained.grounds
  have hsame : d' = d := hv.eq_of_key (t := .disputes) (k := .gatewayDisputeId d.gatewayDisputeId)
    (Schema.mem_of_find hd') hd (by simp [schema, hgateway, hgateway']) (by simp [schema])
  subst hsame
  subst horiginal huser hn
  exact ⟨hgateway, txn, htxn, hlink, hexplained⟩

theorem LedgerTrail.outcome (h : LedgerTrail db) (hv : schema.Valid db) (htrail : DisputeTrail db)
    (hd : d ∈ db .disputes) {o : DisputeOutcome} (hstatus : d.status = o.status) :
    OutcomeBacked d o db := by
  obtain ⟨hresolved, txn, htxn, hkey⟩ := htrail.resolved d hd o hstatus
  obtain ⟨src, user, n, hexplained⟩ := h.explained txn htxn
  have hsrc : src = .outcome d.id o :=
    LedgerSource.key_injective (Option.some.inj (hexplained.key.symm.trans hkey))
  subst hsrc
  have hfind : schema.find .disputes d.id db = some d := hv.find_of_mem hd
  cases o with
  | WON =>
      obtain ⟨d', hd', rfl, rfl⟩ := hexplained.grounds
      obtain rfl : d = d' := Option.some.inj (hfind.symm.trans hd')
      exact ⟨hresolved, txn, htxn, d.amount, hexplained, fun _ => rfl⟩
  | LOST =>
      obtain ⟨d', hd', rfl⟩ := hexplained.grounds
      obtain rfl : d = d' := Option.some.inj (hfind.symm.trans hd')
      exact ⟨hresolved, txn, htxn, n, hexplained, fun h => by cases h⟩

end Trail

/-! ## Runs -/

/-- The dispute was there, or an operation among these has opened it. -/
def Originates {ι : Type} (ops : ι → Operation) (db₀ : Data) (d : Dispute) : Prop :=
  (∃ d₀ ∈ db₀ .disputes, SameDispute d₀ d) ∨ ∃ i, Disputes (ops i) d

section Runs

variable {ι : Type} {db : Database} {ops : ι → Operation}
  {s s' : Sys Stmt Data RowWrite RowLock Err Unit ι} {i : ι}

theorem Originates.same {db₀ : Data} {d d' : Dispute} (h : Originates ops db₀ d)
    (hsame : SameDispute d d') : Originates ops db₀ d' := by
  rcases h with ⟨d₀, hd₀, hsame₀⟩ | ⟨i, hi⟩
  · exact .inl ⟨d₀, hd₀, ⟨hsame.id.trans hsame₀.id, hsame.userId.trans hsame₀.userId,
      hsame.gatewayDisputeId.trans hsame₀.gatewayDisputeId,
      hsame.originalTransactionId.trans hsame₀.originalTransactionId, hsame.amount.trans hsame₀.amount⟩⟩
  · exact .inr ⟨i, hi.same hsame⟩

theorem DisputePatch.apply_same (p : DisputePatch) (d : Dispute) : SameDispute d (p.apply d) := by
  cases p <;> exact ⟨rfl, rfl, rfl, rfl, rfl⟩

/-- A commit changes disputes of which the origin is known. -/
theorem DisputeChange.originates {db₀ db db' : Data} {d' : Dispute}
    (hold : ∀ d ∈ db .disputes, Originates ops db₀ d) (h : DisputeChange (ops i) db db' d') :
    Originates ops db₀ d' := by
  cases h with
  | kept same => exact hold d' (Schema.mem_of_find same)
  | opened disputes status => exact .inr ⟨i, disputes⟩
  | linked d txnId before after =>
      exact after ▸ (hold d (Schema.mem_of_find before)).same (DisputePatch.apply_same _ d)
  | submitted d before evidence after =>
      exact after ▸ (hold d (Schema.mem_of_find before)).same (DisputePatch.apply_same _ d)
  | resolved d o now before call booked after =>
      exact after ▸ (hold d (Schema.mem_of_find before)).same (DisputePatch.apply_same _ d)

variable [DecidableEq ι]

theorem originates_of_runs (h : Runs postgres AnyStep (operations db ops) s) :
    ∀ d ∈ s.db .disputes, Originates ops db.rows d := by
  refine inv_of_commits (K := fun v => ∀ d ∈ v .disputes, Originates ops db.rows d)
    (fun d hd => .inl ⟨d, hd, rfl, rfl, rfl, rfl, rfl⟩) (fun i v ws hv hold hfits hcommit d hd => ?_) h
  have hfind := (locking.valid_applyAll hfits hv).find_of_mem hd
  exact (hcommit.dispute_change hv hfits hfind).originates hold

/-- What a step of a run does to a dispute. -/
theorem disputeChange_of_runs (h : Runs postgres AnyStep (operations db ops) s)
    (hstep : Step postgres s i s') :
    ∀ d ∈ s'.db .disputes, DisputeChange (ops i) s.db s'.db d := by
  intro d hd
  rcases commit_of_step h hstep with hsame | ⟨ws, hv, hfits, hcommit, hdb⟩
  · refine .kept ?_
    rw [hsame] at hd
    exact (valid_of_operations h).1.find_of_mem hd
  · rw [hdb] at hd ⊢
    exact hcommit.dispute_change hv hfits ((locking.valid_applyAll hfits hv).find_of_mem hd)

theorem disputeTrail_of_runs (hold : DisputeTrail db.rows)
    (h : Runs postgres AnyStep (operations db ops) s) : DisputeTrail s.db :=
  inv_of_commits hold (fun _ _ _ hv htrail hfits hcommit => hcommit.disputeTrail hv hfits htrail) h

/-- The dispute has been won. -/
def wonAlone (db : Data) : Bool := (db .disputes).map (·.status) == [.WON]

end Runs

end PaymentBilling
