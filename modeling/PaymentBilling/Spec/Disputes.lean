import PaymentBilling.Spec.Writes
import PaymentBilling.Spec.Transfer

/-!
# Spec.Disputes

The calls on a dispute, under any protocol.

Both calls read the dispute in a statement of its own.  The outcome is then
written in one transaction, together with its ledger transaction; the credits
of a dispute that is won are granted in the middle of it, in a transaction
that is already committed when the outer one ends.
-/

namespace PaymentBilling

open Relational Transact

/-- The key of the ledger transaction of an outcome. -/
def outcomeKey (id : String) : DisputeOutcome → String
  | .WON => "dispute_won_" ++ id ++ "_ledger"
  | .LOST => "dispute_lost_" ++ id ++ "_fee_ledger"

/-- Disputes and outcomes are told apart by their keys. -/
theorem outcomeKey_inj {id id' : String} {outcome outcome' : DisputeOutcome}
    (h : outcomeKey id outcome = outcomeKey id' outcome') : id = id' ∧ outcome = outcome' := by
  have hchars := congrArg String.toList h
  cases outcome <;> cases outcome' <;> simp [outcomeKey] at hchars ⊢
  · exact String.toList_inj.mp hchars
  · exact String.toList_inj.mp hchars

/-- A call on a dispute. -/
inductive DisputeCall
  | evidence (submittedBy evidenceType content : String) (metadata : Metadata)
  | outcome (outcome : DisputeOutcome)

/-- The program of a call on the dispute `id`, without its answer. -/
def DisputeCall.run (id : String) : DisputeCall → Action Unit
  | evidence submittedBy evidenceType content metadata => do
    let _ ← DisputesService.attachEvidence ⟨id, submittedBy, evidenceType, content, metadata⟩
    return ()
  | outcome o => do
    let _ ← DisputesService.setOutcome id o
    return ()

/-- The calls `calls` on the dispute `id`, about to run on the database `db`. -/
def disputeSystem {ι : Type} (db : Database) (id : String) (calls : ι → DisputeCall) :
    Sys Stmt Data RowWrite RowLock Err Unit ι :=
  Sys.start db.rows fun i => (calls i).run id

/-- A dispute as it was opened, whatever has happened to it since. -/
structure SameDispute (dispute d : Dispute) : Prop where
  id : d.id = dispute.id
  userId : d.userId = dispute.userId
  gatewayDisputeId : d.gatewayDisputeId = dispute.gatewayDisputeId
  originalTransactionId : d.originalTransactionId = dispute.originalTransactionId
  amount : d.amount = dispute.amount

theorem SameDispute.of_fixed {dispute d : Dispute}
    (h : schema.fixed (t := .disputes) d = schema.fixed (t := .disputes) dispute) :
    SameDispute dispute d := by
  obtain ⟨hid, huser, -, hgateway, horiginal, hamount, -, -, -, -⟩ := Dispute.mk.inj h
  exact ⟨hid, huser, hgateway, horiginal, hamount⟩

theorem SameDispute.trans {d d₁ d₂ : Dispute} (h : SameDispute d d₁) (h' : SameDispute d₁ d₂) :
    SameDispute d d₂ where
  id := h'.id.trans h.id
  userId := h'.userId.trans h.userId
  gatewayDisputeId := h'.gatewayDisputeId.trans h.gatewayDisputeId
  originalTransactionId := h'.originalTransactionId.trans h.originalTransactionId
  amount := h'.amount.trans h.amount

theorem dispute_of_le {db db' : Data} {id : String} {dispute : Dispute} (hle : schema.le db db')
    (h : schema.find .disputes id db = some dispute) :
    ∃ d, schema.find .disputes id db' = some d ∧ SameDispute dispute d := by
  obtain ⟨d, hd, hfix⟩ := hle _ _ _ h
  exact ⟨d, hd, .of_fixed hfix⟩

/-- The row of a dispute after one of its updates. -/
theorem find_disputePatch {db : Data} {id : String} {p : DisputePatch} :
    schema.find .disputes id (schema.apply (.update .disputes id p) db) =
      (schema.find .disputes id db).map p.apply := by
  rw [Schema.find_update]
  cases hf : schema.find .disputes id db with
  | none => rfl
  | some old =>
      have hid : old.id = id := Schema.id_of_find hf
      rw [← hid]
      exact congrArg some Schema.revise_self

/-- The fee that is configured for a lost dispute. -/
def chargebackFee (db : Data) : Int :=
  (parseInt (((schema.find .billingConfig "chargeback_fee_cents" db).map (·.value)).getD
    (toString (1500 : Int)))).getD 1500

namespace DisputesService

/-! ## The transaction of an outcome -/

/-- The ledger transaction of an outcome. -/
def outcomeTransfer (dispute : Dispute) (fee : Int) : DisputeOutcome → Transfer
  | .WON =>
    { firstUser := .str dispute.userId, firstType := .ASSET
      secondUser := .str LedgerService.SYSTEM_USER_ID, secondType := .REVENUE
      key := some (outcomeKey dispute.id .WON)
      entries := fun a b => wonEntries a b dispute.amount }
  | .LOST =>
    { firstUser := .str LedgerService.SYSTEM_USER_ID, firstType := .EXPENSE
      secondUser := .str dispute.userId, secondType := .ASSET
      key := some (outcomeKey dispute.id .LOST)
      entries := fun a b => lostEntries a b fee }

/-- The entries of an outcome are on its two accounts. -/
theorem outcome_entries (dispute : Dispute) (fee : Int) (outcome : DisputeOutcome) (a b : String) :
    ∀ e ∈ (outcomeTransfer dispute fee outcome).entries a b, e.accountId = a ∨ e.accountId = b := by
  cases outcome <;> simp [outcomeTransfer, wonEntries, lostEntries]

/-- What an outcome commits: its ledger transaction and the status; writes of
credits do not matter here. -/
structure Resolved (dispute : Dispute) (fee : Int) (outcome : DisputeOutcome) (ws : List RowWrite)
    (db : Data) : Prop where
  split : ∃ txn ws₁ ws₂ now,
    ws = ws₁ ++ (ws₂ ++ [.update .disputes dispute.id (DisputePatch.resolve outcome.status now)]) ∧
      Transferred (outcomeTransfer dispute fee outcome) txn ws₁ db ∧
      ∀ w ∈ ws₂, w.table ∈ creditTables

/-- The status is set. -/
def resolveEffect (id : String) (status : DisputeStatus) : Effect locking Dispute where
  rel _ ws _ := ∃ now, ws = [.update .disputes id (DisputePatch.resolve status now)]
  stable _ _ _ h := h

/-- The effect of an outcome on its transaction. -/
def outcomeEffect (dispute : Dispute) (fee : Int) (outcome : DisputeOutcome) :
    Effect locking Dispute :=
  (transferEffect (outcomeTransfer dispute fee outcome)).bind fun _ =>
    Effect.bind (α := Unit) (.writes locking fun w => w.table ∈ creditTables) fun _ =>
      resolveEffect dispute.id outcome.status

theorem resolved_of_rel {dispute : Dispute} {fee : Int} {outcome : DisputeOutcome} {r : Dispute}
    {ws : List RowWrite} {db : Data} (h : (outcomeEffect dispute fee outcome).rel r ws db) :
    Resolved dispute fee outcome ws db := by
  obtain ⟨response, ws₁, _, rfl, hx, _, ws₂, ws₃, rfl, hcredits, now, rfl⟩ := h
  exact ⟨response.transaction, ws₁, ws₂, now, rfl, transferred_of_rel hx, hcredits⟩

theorem outcomeKey_ne (id : String) (outcome : DisputeOutcome) : outcomeKey id outcome ≠ "" := by
  cases outcome with
  | WON => exact append_ne (append_ne (by decide))
  | LOST => exact append_ne (append_ne (by decide))

section Rules

variable {I : Data → Prop} (P : Protocol locking I) {past : List (Event Stmt Err)}

theorem does_resolve (id : String) (status : DisputeStatus) :
    P.Does past (query (.disputeUpdate id (.resolve status))) (resolveEffect id status) := by
  refine Protocol.does_exec fun env db r ws _ hx => ?_
  obtain ⟨old, -, -, rfl⟩ := exec_disputeUpdate hx
  exact ⟨env.now, rfl⟩

/-- The body of the transaction of a dispute that is won. -/
theorem wp_handleWon {dispute : Dispute} {trace : List (Event Stmt Err)} {db : Data}
    {Q : Post Stmt Data RowWrite RowLock Err Dispute}
    (hcredits : ∀ c db' ws, (∃ events, c.trace = events ++ trace) →
      (∀ w ∈ ws, w.table ∈ creditTables) → locking.valid db' → I db' → locking.fitsAll ws db' →
      P.Keeps c db' (postgres.applyAll ws db'))
    (hthrow : ∀ e c' db', Q (.error e) c' db')
    (hcommit : ∀ r t c' db', c'.stack = [t] → (∃ events, c'.trace = events ++ trace) →
      locking.le db db' → P.Sees c' db' db' → locking.fitsAll t.writes db' →
      Resolved dispute 0 .WON t.writes db' →
      P.Keeps c' db' (postgres.view t db') ∧
        Q (.ok r) ⟨[], .commit (.ok ()) :: c'.trace⟩ (postgres.view t db')) :
    P.wp (handleWon dispute) Q ⟨[], trace⟩ db := by
  refine Protocol.wp_transaction_of_does (X := outcomeEffect dispute 0 .WON)
    (does_transfer (x := outcomeTransfer dispute 0 .WON)
      (LedgerService.does_getOrCreateAssetAccount P _)
      (LedgerService.does_getOrCreateSystemAccount P _)
      (Option.filter_some_pos (decide_eq_true (outcomeKey_ne dispute.id .WON))) fun _ =>
        Protocol.does_bind (Protocol.does_only table_mem_of_writesIn hcredits
          (restoreCredits_only dispute)) fun _ => does_resolve P _ _)
    (fun e c' db' _ => hthrow e c' db') fun r t c' db' hstack hpast hle hs hfits hx => ?_
  exact hcommit r t c' db' hstack hpast hle hs hfits (resolved_of_rel hx)

/-- The ledger transaction of a dispute that is won. -/
def bookWon (dispute : Dispute) : Action TransactionResponse := do
  let userAssetAccountId ← LedgerService.getOrCreateAssetAccount (.str dispute.userId)
  let revenueAccountId ← LedgerService.getOrCreateSystemAccount .REVENUE
  LedgerService.recordTransaction (.str dispute.userId)
    ("Dispute WON: reversal-of-reversal for dispute " ++ dispute.id)
    (wonEntries userAssetAccountId revenueAccountId dispute.amount) .COMPLETED
    [("disputeId", .str dispute.id), ("outcome", .str "WON"),
      ("originalReversalTxnId", (dispute.ledgerReversalTxnId.map .str).getD .null),
      ("type", .str "dispute_won_reversal")]
    true (some ("dispute_won_" ++ dispute.id ++ "_ledger"))

/-- The credits are granted in the middle of the transaction. -/
theorem handleWon_eq (dispute : Dispute) : handleWon dispute = transaction (bookWon dispute >>= fun _ =>
    restoreCredits dispute >>= fun _ => query (.disputeUpdate dispute.id (.resolve .WON))) := by
  rw [handleWon, bookWon, Prog.bind_assoc]
  congr 2
  funext userAssetAccountId
  rw [Prog.bind_assoc]

theorem does_bookWon (dispute : Dispute) :
    P.Does past (bookWon dispute) (transferEffect (outcomeTransfer dispute 0 .WON)) := by
  have hkey : (some ("dispute_won_" ++ dispute.id ++ "_ledger")).filter (· ≠ "") =
      (outcomeTransfer dispute 0 .WON).key :=
    Option.filter_some_pos (decide_eq_true (outcomeKey_ne dispute.id .WON))
  refine Protocol.does_bind (LedgerService.does_getOrCreateAssetAccount P _) fun a =>
    Protocol.does_bind (LedgerService.does_getOrCreateSystemAccount P _) fun b => ?_
  rw [← hkey]
  exact LedgerService.does_recordTransaction P _ _ _ _ _ _

/-- A dispute that is won, in its three parts.  `K` is known of the database
until the credits are granted, and `R` from then on. -/
theorem wp_handleWon_parts {dispute : Dispute} {trace : List (Event Stmt Err)} {db : Data}
    {Q : Post Stmt Data RowWrite RowLock Err Dispute} {K : Data → Prop} {R : LocalState → Data → Prop}
    (hK : ∀ c' db₁ db₂, (∃ events, c'.trace = events ++ trace) → P.Sees c' db₁ db₂ → K db₁ → K db₂)
    (hk : K db)
    (hR : ∀ c₁ c' db₁ db₂, (∃ events, c'.trace = events ++ c₁.trace) → P.Sees c' db₁ db₂ →
      R c₁ db₁ → R c₁ db₂)
    (hrest : ∀ t c₁ db₁, c₁.stack = [t] → (∃ events, c₁.trace = events ++ trace) →
      locking.valid db₁ → locking.StackOk c₁.stack db₁ → K db₁ →
      P.wp (restoreCredits dispute) (fun _ c' db' => c'.stack = c₁.stack ∧ R c' db') c₁ db₁)
    (hthrow : ∀ e c' db', c'.stack = [] →
      (K db' ∨ ∃ c₁, (∃ events, c'.trace = events ++ c₁.trace) ∧ R c₁ db') → Q (.error e) c' db')
    (hcommit : ∀ r t txn ws now c₁ c' db', c'.stack = [t] → (∃ events, c₁.trace = events ++ trace) →
      (∃ events, c'.trace = events ++ c₁.trace) → P.Sees c' db' db' → locking.fitsAll t.writes db' →
      t.writes = ws ++ [.update .disputes dispute.id (DisputePatch.resolve .WON now)] →
      Transferred (outcomeTransfer dispute 0 .WON) txn ws db' → R c₁ db' →
      P.Keeps c' db' (postgres.view t db') ∧
        Q (.ok r) ⟨[], .commit (.ok ()) :: c'.trace⟩ (postgres.view t db')) :
    P.wp (handleWon dispute) Q ⟨[], trace⟩ db := by
  rw [handleWon_eq]
  refine Protocol.wp_transaction_of_middle (X := transferEffect (outcomeTransfer dispute 0 .WON))
    (Y := fun _ _ => resolveEffect dispute.id .WON) (K := K) (R := fun _ _ => R)
    (Protocol.doesWith_of_knowing (does_bookWon (P.knowing K) dispute) hK)
    (fun _ => anyStmt_of_only (restoreCredits_only dispute))
    (fun _ _ c₁ _ => Protocol.doesWith_of_knowing (does_resolve (P.knowing (R c₁)) _ _)
      fun c' _ _ hc' => hR c₁ c' _ _ hc') hK hk
    (fun _ t c₁ db₁ hstack hpast hv hok _ hknown => Protocol.wp_mono _
      (fun _ _ _ hr => ⟨fun _ _ => hr.1, hr.2⟩) (hrest t c₁ db₁ hstack hpast hv hok hknown))
    (fun _ _ c₁ c' _ _ _ hc' => hR c₁ c' _ _ hc') (fun e c' db' hstack hr => ?_) ?_
  · refine hthrow e c' db' hstack (hr.imp_right ?_)
    rintro ⟨_, _, c₁, hc₁, hr₁⟩
    exact ⟨c₁, hc₁, hr₁⟩
  · intro response _ r t c₁ c' db' ws₁ ws₂ hstack hpast₁ hpast _ hs hfits hws hx hy hr
    obtain ⟨now, rfl⟩ := hy
    exact hcommit r t response.transaction ws₁ now c₁ c' db' hstack hpast₁ hpast hs hfits hws
      (transferred_of_rel hx) hr

/-- The ledger transaction of a dispute that is lost. -/
def bookLost (dispute : Dispute) (fee : Int) : Action TransactionResponse := do
  let expenseAccountId ← LedgerService.getOrCreateSystemAccount .EXPENSE
  let userAssetAccountId ← LedgerService.getOrCreateAssetAccount (.str dispute.userId)
  LedgerService.recordTransaction (.str dispute.userId)
    ("Chargeback fee for lost dispute " ++ dispute.id)
    (lostEntries expenseAccountId userAssetAccountId fee) .COMPLETED
    [("disputeId", .str dispute.id), ("outcome", .str "LOST"), ("feeType", .str "chargeback"),
      ("feeCents", .int fee), ("type", .str "chargeback_fee")]
    true (some ("dispute_lost_" ++ dispute.id ++ "_fee_ledger"))

/-- The transaction of a dispute that is lost with a fee. -/
def loseWithFee (dispute : Dispute) (fee : Int) : Action Dispute :=
  bookLost dispute fee >>= fun _ => query (.disputeUpdate dispute.id (.resolve .LOST))

theorem handleLost_eq (dispute : Dispute) : handleLost dispute =
    BillingConfigService.getInt "chargeback_fee_cents" 1500 >>= fun fee =>
      transaction (loseWithFee dispute fee) := by
  rw [handleLost]
  congr 1
  funext fee
  rw [loseWithFee, bookLost, Prog.bind_assoc]
  congr 2
  funext expenseAccountId
  rw [Prog.bind_assoc]

theorem does_loseWithFee (dispute : Dispute) (fee : Int) :
    P.Does past (loseWithFee dispute fee) (outcomeEffect dispute fee .LOST) := by
  have hkey : (some ("dispute_lost_" ++ dispute.id ++ "_fee_ledger")).filter (· ≠ "") =
      (outcomeTransfer dispute fee .LOST).key :=
    Option.filter_some_pos (decide_eq_true (outcomeKey_ne dispute.id .LOST))
  have hbook : P.Does past (bookLost dispute fee)
      (transferEffect (outcomeTransfer dispute fee .LOST)) := by
    refine Protocol.does_bind (LedgerService.does_getOrCreateSystemAccount P _) fun a =>
      Protocol.does_bind (LedgerService.does_getOrCreateAssetAccount P _) fun b => ?_
    rw [← hkey]
    exact LedgerService.does_recordTransaction P _ _ _ _ _ _
  refine Protocol.does_weaken (Protocol.does_bind hbook fun _ => does_resolve P _ _) ?_
  rintro r ws db ⟨response, ws₁, ws₂, rfl, hx, hresolve⟩
  exact ⟨response, ws₁, ws₂, rfl, hx, (), [], ws₂, rfl, List.forall_mem_nil _, hresolve⟩

/-- The fee that is read is the configured one. -/
theorem wp_readFee {trace : List (Event Stmt Err)} {db : Data}
    {Q : Post Stmt Data RowWrite RowLock Err Int}
    (hthrow : ∀ e c' db', P.Sees ⟨[], trace⟩ db db' → Q (.error e) c' db')
    (hread : ∀ found db₁, P.Sees ⟨[], trace⟩ db db₁ → Q (.ok (chargebackFee db₁))
      ⟨[], .stmt (.billingConfigFindUnique "chargeback_fee_cents") (.ok found) :: trace⟩ db₁) :
    P.wp (BillingConfigService.getInt "chargeback_fee_cents" 1500) Q ⟨[], trace⟩ db := by
  unfold BillingConfigService.getInt BillingConfigService.get
  rw [P.wp_bind, P.wp_bind]
  refine P.wp_exec_auto (fun e db₁ hs₁ => hthrow _ _ _ hs₁) fun env found ws db₁ hs₁ hx => ?_
  obtain ⟨rfl, hfound⟩ := exec_billingConfigFindUnique hx
  refine ⟨P.keeps_refl hs₁.inv, ?_⟩
  have hq := hread found db₁ hs₁
  rw [chargebackFee, ← hfound] at hq
  cases found with
  | none => exact hq
  | some row => exact hq

/-- The fee is read, and then the transaction of a dispute that is lost runs. -/
theorem wp_handleLost {dispute : Dispute} {trace : List (Event Stmt Err)} {db : Data}
    {Q : Post Stmt Data RowWrite RowLock Err Dispute}
    (hthrow : ∀ e c' db', Q (.error e) c' db')
    (hcommit : ∀ r t c' db₁ db', P.Sees ⟨[], trace⟩ db db₁ → c'.stack = [t] →
      (∃ events, c'.trace = events ++ trace) → locking.le db₁ db' → P.Sees c' db' db' →
      locking.fitsAll t.writes db' → Resolved dispute (chargebackFee db₁) .LOST t.writes db' →
      P.Keeps c' db' (postgres.view t db') ∧
        Q (.ok r) ⟨[], .commit (.ok ()) :: c'.trace⟩ (postgres.view t db')) :
    P.wp (handleLost dispute) Q ⟨[], trace⟩ db := by
  rw [handleLost_eq, P.wp_bind]
  refine wp_readFee P (fun e c' db' _ => hthrow e c' db') fun found db₁ hs₁ => ?_
  rw [Protocol.bindPost_ok]
  refine Protocol.wp_transaction_of_does (does_loseWithFee P dispute (chargebackFee db₁))
    (fun e c' db' _ => hthrow e c' db') fun r t c' db' hstack hpast hle hs hfits hx => ?_
  obtain ⟨events, he⟩ := hpast
  refine hcommit r t c' db₁ db' hs₁ hstack ⟨events ++
    [.stmt (.billingConfigFindUnique "chargeback_fee_cents") (.ok found)], ?_⟩ hle hs hfits
    (resolved_of_rel hx)
  rw [he, List.append_assoc]
  rfl

/-! ## Rules -/

/-- The event of having read the dispute as `d`. -/
def readEvent (id : String) (d : Dispute) : Event Stmt Err :=
  .stmt (.disputeFindUnique id) (.ok (some d))

variable {id : String} {trace : List (Event Stmt Err)} {db : Data}

/-- `setOutcome`: the dispute is read in a status from which the outcome may
follow. -/
theorem wp_setOutcome {outcome : DisputeOutcome} {Q : Post Stmt Data RowWrite RowLock Err Dispute}
    (hthrow : ∀ e c' db', P.Sees ⟨[], trace⟩ db db' → Q (.error e) c' db')
    (hhandle : ∀ seen db₁, P.Sees ⟨[], trace⟩ db db₁ →
      schema.find .disputes id db₁ = some seen →
      outcome.status ∈ (DISPUTE_TRANSITIONS seen.status).getD [] →
      P.wp (match outcome with
        | .WON => handleWon seen
        | .LOST => handleLost seen) Q ⟨[], readEvent id seen :: trace⟩ db₁) :
    P.wp (setOutcome id outcome) Q ⟨[], trace⟩ db := by
  unfold setOutcome
  rw [P.wp_bind]
  refine P.wp_exec_auto (fun e db₁ hs₁ => hthrow _ _ _ hs₁) fun env found ws db₁ hs₁ hx => ?_
  obtain ⟨rfl, hfound⟩ := exec_disputeFindUnique hx
  refine ⟨P.keeps_refl hs₁.inv, ?_⟩
  cases found with
  | none => exact hthrow _ _ _ hs₁
  | some seen =>
      simp only [Protocol.bindPost_ok]
      unfold assertTransition
      by_cases hallowed : ((DISPUTE_TRANSITIONS seen.status).getD []).contains outcome.status = true
      · rw [if_pos hallowed]
        exact hhandle seen db₁ hs₁ hfound.symm (by simpa using hallowed)
      · rw [if_neg hallowed]
        exact hthrow _ _ _ hs₁

/-- `attachEvidence`: a row of evidence is added to the dispute that was read,
and the dispute is marked when it was open. -/
theorem wp_attachEvidence {params : DisputeEvidenceCreate}
    {Q : Post Stmt Data RowWrite RowLock Err DisputeEvidence}
    (hthrow : ∀ e c' db', Q (.error e) c' db') (hdone : ∀ a c' db', Q (.ok a) c' db')
    (hrest : ∀ seen db₁, P.Sees ⟨[], trace⟩ db db₁ →
      schema.find .disputes params.disputeId db₁ = some seen →
      (∀ row db₂, P.Sees ⟨[], readEvent params.disputeId seen :: trace⟩ db₁ db₂ →
        P.Keeps ⟨[], readEvent params.disputeId seen :: trace⟩ db₂
          (schema.apply (.insert .disputeEvidence row) db₂)) ∧
      (seen.status = .OPEN → ∀ row events db₂ db₃,
        P.Sees ⟨[], readEvent params.disputeId seen :: trace⟩ db₁ db₂ →
        P.Sees ⟨[], events ++ readEvent params.disputeId seen :: trace⟩
          (schema.apply (.insert .disputeEvidence row) db₂) db₃ →
        P.Keeps ⟨[], events ++ readEvent params.disputeId seen :: trace⟩ db₃
          (schema.apply (.update .disputes params.disputeId .evidenceSubmitted) db₃))) :
    P.wp (attachEvidence params) Q ⟨[], trace⟩ db := by
  unfold attachEvidence
  rw [P.wp_bind]
  refine P.wp_exec_auto (fun e db₁ _ => hthrow _ _ _) fun env found ws db₁ hs₁ hx => ?_
  obtain ⟨rfl, hfound⟩ := exec_disputeFindUnique hx
  refine ⟨P.keeps_refl hs₁.inv, ?_⟩
  cases found with
  | none => exact hthrow _ _ _
  | some seen =>
      obtain ⟨hinsert, hsubmit⟩ := hrest seen db₁ hs₁ hfound.symm
      show P.wp (query (.disputeEvidenceCreate params) >>= _) _ _ _
      rw [P.wp_bind]
      refine P.wp_exec_auto (fun e db₂ _ => hthrow _ _ _) fun env' row ws db₂ hs₂ hx₂ => ?_
      obtain ⟨rfl, -⟩ := exec_disputeEvidenceCreate hx₂
      refine ⟨hinsert row db₂ hs₂, ?_⟩
      simp only [Protocol.bindPost_ok]
      split
      · next hopen =>
        rw [P.wp_bind]
        refine P.wp_exec_auto (fun e db₃ _ => hthrow _ _ _) fun env'' r ws db₃ hs₃ hx₃ => ?_
        obtain ⟨old, -, -, rfl⟩ := exec_disputeUpdate hx₃
        exact ⟨hsubmit hopen row [_] db₂ db₃ hs₂ hs₃, hdone _ _ _⟩
      · exact hdone _ _ _

end Rules

end DisputesService

end PaymentBilling
