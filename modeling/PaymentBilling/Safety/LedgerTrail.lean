import PaymentBilling.Safety.Reversals
import PaymentBilling.Spec.Commits
import PaymentBilling.Spec.Linked
import PaymentBilling.Spec.Sources

/-!
# Safety.LedgerTrail

Every ledger transaction has its reason, and every operation posts for its own
source only.

A delivery of a chargeback about a dispute that is there already finds the key
of its reversal taken, since the dispute points to that reversal (`Linked`); so
the reversal is always the one of the delivery that opened the dispute.
-/

namespace PaymentBilling

open Relational Transact AuthorizeNetWebhookController

/-! ## Deliveries of chargebacks -/

section Deliveries

variable {data : AuthorizeNetData} {r : Option Dispute} {ws : List RowWrite} {db : Data}

/-- The dispute that a delivery is about, with what is written of it. -/
inductive FoundOrOpened (data : AuthorizeNetData) (d : Dispute) (db : Data) : List RowWrite → Prop
  | found (d' : Dispute) (hfind : schema.find .disputes d.id db = some d') (hsame : SameDispute d d') :
      FoundOrOpened data d db []
  | opened (hnew : AuthorizeNetWebhookController.Opened data d) :
      FoundOrOpened data d db [.insert .disputes d]

/-- The writes of a delivery, after its record: none, or a dispute, a transfer
and the pointer from the one to the other. -/
theorem delivery_cases (hx : (deliveryEffect data).rel r ws db) :
    ∃ ws₀ rest, ws = ws₀ ++ rest ∧ (∀ w ∈ ws₀, w.table = .processedWebhooks) ∧
      (rest = [] ∨ ∃ d txn dispute transfer,
        rest = dispute ++ (transfer ++
          [.update .disputes d.id (DisputePatch.ledgerReversalTxnId txn.id)]) ∧
        d.gatewayDisputeId = gatewayDisputeKey data.transactionId.text ∧
        FoundOrOpened data d (postgres.applyAll ws₀ db) dispute ∧
        Transferred (chargebackTransfer data) txn transfer
          (postgres.applyAll dispute (postgres.applyAll ws₀ db))) := by
  obtain ⟨_, ws₀, ws', rfl, hrecord, d, ws₁, rest, rfl, ⟨hgate, hopened⟩, hrest⟩ := hx
  refine ⟨ws₀, _, rfl, hrecord, ?_⟩
  have hdispute : FoundOrOpened data d (postgres.applyAll ws₀ db) ws₁ := by
    rcases hopened with ⟨rfl, d', hfind, hsame⟩ | ⟨rfl, hnew⟩
    · exact .found d' hfind hsame
    · exact .opened hnew
  beta_reduce at hrest
  split at hrest
  · next hreversed =>
    obtain ⟨-, rfl⟩ := hrest
    cases hdispute with
    | found d' hfind hsame => exact .inl rfl
    | opened hnew =>
        rw [hnew.unreversed] at hreversed
        cases hreversed
  · obtain ⟨response, ws₂, _, rfl, htransfer, -, rfl⟩ := hrest
    exact .inr ⟨d, response.transaction, ws₁, ws₂, rfl, hgate, hdispute, transferred_of_rel htransfer⟩

/-- The two entries of a chargeback. -/
theorem chargebackTransfer_refundSlots {user : String} {n : Int} (huser : data.userId = .str user)
    (hn : data.amount = .int n) :
    (chargebackTransfer data).HasSlots ((LedgerSource.chargeback data.transactionId.text).slots user n) := by
  intro db user₁ user₂ id₁ id₂ lines hu₁ hu₂ hacc₁ hacc₂ hlines
  obtain rfl := Js.str.inj (huser.symm.trans hu₁)
  obtain rfl := Js.str.inj hu₂
  simp only [chargebackTransfer, chargebackEntries, hn] at hlines
  exact fills_pair hlines hacc₂ hacc₁

end Deliveries

/-! ## Commits -/

section Commit

variable {op : Operation} {db : Data} {ws : List RowWrite}

/-- No commit takes away from a dispute what it points to. -/
theorem Commit.linked (h : Commit op db ws) (hv : schema.Valid db) (hfits : locking.fitsAll ws db)
    (hlinked : Linked db) : Linked (postgres.applyAll ws db) := by
  have hle := locking.le_applyAll ws db
  have hsame : postgres.applyAll ws db .disputes = db .disputes → Linked (postgres.applyAll ws db) :=
    hlinked.of_same hv hle
  cases h with
  | plain tables => exact hsame (applyAll_plain tables (by decide))
  | credits src user n _ _ change => exact hsame (change.other (by decide) (by decide))
  | request userId data r _ _ => exact hsame (applyAll_other (by simp [Write.table]))
  | review id review p _ _ => exact hsame (applyAll_other (by simp [Write.table]))
  | charge seen g _ _ _ _ => exact hsame (applyAll_other (by simp [Write.table]))
  | paid seen g txn _ _ _ _ transferred _ =>
      refine hsame ?_
      rw [postgres.applyAll_append]
      exact (applyAll_other (by simp [Write.table])).trans (transferred.other (by decide))
  | failed seen message _ _ => exact hsame (applyAll_other (by simp [Write.table]))
  | processed seen _ _ _ => exact hsame (applyAll_other (by simp [Write.table]))
  | chargeback config req data r _ _ _ delivery _ =>
      exact (delivery_serves (U := fun _ => True) delivery hv hfits hlinked fun _ _ => trivial).linked
  | submitted e _ => exact hsame (applyAll_other (by simp [Write.table]))
  | evidence id evidence _ _ =>
      rw [applyAll_single] at hle ⊢
      exact hlinked.of_patch hv hle keepsReversal_evidenceSubmitted Schema.apply_update_self
  | outcome seen o fee now txn _ _ transferred _ =>
      rw [locking.fitsAll_append] at hfits
      rw [postgres.applyAll_append, applyAll_single]
      refine Linked.of_patch ?_ (locking.valid_applyAll hfits.1 hv) (schema.le_apply _ _)
        (keepsReversal_resolve o.status now) Schema.apply_update_self
      exact hlinked.of_same hv (locking.le_applyAll _ db) (transferred.other (by decide))

end Commit

/-! ## Steps of the ledger -/

/-- What a commit of the operation does to the ledger. -/
inductive LedgerStep (op : Operation) (db db' : Data) : Prop
  | same (same : SameLedger db db')
  | posted (src : LedgerSource) (txn : LedgerTransaction) (user : String) (n : Int)
      (source : op.ledgerSource? = some src)
      (posted : Posted (some src.key) (src.slots user n) txn db db')
      (explained : Explained src txn user n db')

section Steps

variable {op : Operation} {db db' db₁ : Data} {ws : List RowWrite}

theorem LedgerStep.before (h : LedgerStep op db₁ db') (hsame : SameLedger db db₁) :
    LedgerStep op db db' := by
  cases h with
  | same same => exact .same (hsame.trans same)
  | posted src txn user n source posted explained =>
      exact .posted src txn user n source (posted.between hsame (.refl db') (schema.le_refl db')) explained

theorem LedgerStep.after (h : LedgerStep op db db₁) (hsame : SameLedger db₁ db')
    (hle : schema.le db₁ db') (hlater : Later db₁ db') : LedgerStep op db db' := by
  cases h with
  | same same => exact .same (same.trans hsame)
  | posted src txn user n source posted explained =>
      exact .posted src txn user n source (posted.between (.refl db) hsame hle)
        (explained.later hle hlater (hsame.entries txn.id))

theorem ledgerStep_of_explained {src : LedgerSource} {txn : LedgerTransaction} {user : String}
    (hsrc : op.ledgerSource? = some src)
    (h : SameLedger db db' ∨ ∃ n, Posted (some src.key) (src.slots user n) txn db db' ∧
      Explained src txn user n db') : LedgerStep op db db' := by
  rcases h with hsame | ⟨n, hposted, hexplained⟩
  · exact .same hsame
  · exact .posted src txn user n hsrc hposted hexplained

/-- The ledger transaction of a refund. -/
theorem ledgerStep_refund {seen : RefundRequest} {g : GatewayRefund} {txn : LedgerTransaction}
    (hsrc : op.ledgerSource? = some (.refund seen.id)) (hreviewed : Reviewed seen db)
    (htype : seen.type = .PAYMENT) (hrefunded : GatewayRefunded seen.id g db)
    (h : Transferred (RefundsService.refundTransfer seen g.refundedAmount) txn ws db)
    (hv : schema.Valid db) (hfits : locking.fitsAll ws db)
    (hregisters : ∀ w ∈ ws, Registers (.str seen.userId) w) :
    LedgerStep op db (postgres.applyAll ws db) := by
  refine ledgerStep_of_explained hsrc (h.explained hv hfits rfl hregisters fun a b lines hlines => ?_)
  obtain ⟨n, hn⟩ : ∃ n, g.refundedAmount = .int n := by
    obtain _ | ⟨hline, -⟩ := hlines
    exact ⟨_, hline.amount⟩
  obtain ⟨r, hr, hsame, hstatus⟩ := hreviewed.found
  have hgrounds : (LedgerSource.refund seen.id).Grounds seen.userId n db :=
    ⟨r, g, hr, hsame.type.trans htype, hstatus, hsame.userId, hrefunded, hn⟩
  refine ⟨n, ?_, hgrounds.later (locking.le_applyAll ws db) (.of_same (h.other (by decide)))⟩
  rw [hn]
  exact refundTransfer_hasSlots

/-- The ledger transaction of an outcome. -/
theorem ledgerStep_outcome {seen d : Dispute} {o : DisputeOutcome} {fee : Int} {txn : LedgerTransaction}
    (hsrc : op.ledgerSource? = some (.outcome seen.id o))
    (hd : schema.find .disputes seen.id db = some d) (hsame : SameDispute seen d)
    (h : Transferred (DisputesService.outcomeTransfer seen fee o) txn ws db)
    (hv : schema.Valid db) (hfits : locking.fitsAll ws db)
    (hregisters : ∀ w ∈ ws, Registers (.str seen.userId) w) :
    LedgerStep op db (postgres.applyAll ws db) := by
  have hslots := outcomeTransfer_slots seen fee o
  have hlater : Later db (postgres.applyAll ws db) := .of_same (h.other (by decide))
  have hle := locking.le_applyAll ws db
  cases o with
  | WON =>
      refine ledgerStep_of_explained hsrc (h.explained hv hfits rfl hregisters fun _ _ _ _ => ?_)
      have hgrounds : (LedgerSource.outcome seen.id .WON).Grounds seen.userId seen.amount db :=
        ⟨d, hd, hsame.userId, hsame.amount⟩
      exact ⟨seen.amount, hslots, hgrounds.later hle hlater⟩
  | LOST =>
      refine ledgerStep_of_explained hsrc (h.explained hv hfits rfl hregisters fun _ _ _ _ => ?_)
      have hgrounds : (LedgerSource.outcome seen.id .LOST).Grounds seen.userId fee db :=
        ⟨d, hd, hsame.userId⟩
      exact ⟨fee, hslots, hgrounds.later hle hlater⟩

/-- The reversal of a charge whose dispute is new. -/
theorem ledgerStep_opened {data : AuthorizeNetData} {d : Dispute} {txn : LedgerTransaction}
    (hsrc : op.ledgerSource? = some (.chargeback data.transactionId.text))
    (hfind : schema.find .disputes d.id db = some d)
    (hgate : d.gatewayDisputeId = gatewayDisputeKey data.transactionId.text)
    (hnew : AuthorizeNetWebhookController.Opened data d)
    (h : Transferred (chargebackTransfer data) txn ws db) (hv : schema.Valid db)
    (hfits : locking.fitsAll ws db) (hregisters : ∀ w ∈ ws, Registers data.userId w) :
    LedgerStep op db (postgres.applyAll ws db) := by
  rw [hnew.userId] at hregisters
  refine ledgerStep_of_explained hsrc (h.explained hv hfits rfl hregisters fun _ _ _ _ => ?_)
  have horiginal : d.originalTransactionId = data.transactionId.text := by
    rw [hnew.originalTransactionId]
    rfl
  have hgrounds : (LedgerSource.chargeback data.transactionId.text).Grounds d.userId d.amount db :=
    ⟨d.id, d, hfind, horiginal, hgate, rfl, rfl⟩
  exact ⟨d.amount, chargebackTransfer_refundSlots hnew.userId hnew.amount,
    hgrounds.later (locking.le_applyAll ws db) (.of_same (h.other (by decide)))⟩

/-- The reversal of a charge whose dispute is there is there as well. -/
theorem sameLedger_found {data : AuthorizeNetData} {d d' : Dispute} {txn : LedgerTransaction}
    (hlinked : Linked db) (hfind : schema.find .disputes d.id db = some d') (hsame : SameDispute d d')
    (hgate : d.gatewayDisputeId = gatewayDisputeKey data.transactionId.text)
    (h : Transferred (chargebackTransfer data) txn ws db) (hv : schema.Valid db)
    (hfits : locking.fitsAll ws db) : SameLedger db (postgres.applyAll ws db) := by
  rcases h.posted hv hfits with hknown | ⟨hfresh, -⟩
  · exact hknown.sameLedger
  · obtain ⟨transactionId, hkey, txn', hmem, htxn', -⟩ := hlinked d' (Schema.mem_of_find hfind)
    have hid : transactionId = data.transactionId.text :=
      gatewayDisputeKey_inj (hkey.symm.trans (hsame.gatewayDisputeId.trans hgate))
    subst hid
    exact (hfresh _ rfl txn' hmem htxn').elim

/-- What the delivery of a chargeback does to the ledger. -/
theorem ledgerStep_delivery {data : AuthorizeNetData} {r : Option Dispute}
    (hsrc : op.ledgerSource? = some (.chargeback data.transactionId.text))
    (hx : (deliveryEffect data).rel r ws db) (hv : schema.Valid db) (hfits : locking.fitsAll ws db)
    (hlinked : Linked db) (hregisters : ∀ w ∈ ws, Registers data.userId w) :
    LedgerStep op db (postgres.applyAll ws db) := by
  obtain ⟨ws₀, rest, rfl, hrecord, hrest⟩ := delivery_cases hx
  rw [locking.fitsAll_append] at hfits
  rw [postgres.applyAll_append]
  have hrecorded : SameLedger db (postgres.applyAll ws₀ db) :=
    sameLedger_of_writes fun w hw => by rw [hrecord w hw]; decide
  have hv₀ : schema.Valid (postgres.applyAll ws₀ db) := locking.valid_applyAll hfits.1 hv
  rcases hrest with rfl | ⟨d, txn, dispute, transfer, rfl, hgate, hdispute, htransfer⟩
  · exact .same hrecorded
  rw [List.forall_mem_append, List.forall_mem_append, List.forall_mem_append] at hregisters
  rw [locking.fitsAll_append, locking.fitsAll_append] at hfits
  rw [postgres.applyAll_append, postgres.applyAll_append]
  refine LedgerStep.after (LedgerStep.before ?_ hrecorded)
    (sameLedger_of_writes (by simp [Write.table, ledgerTables])) (locking.le_applyAll _ _)
    (.of_other (by simp [Write.table]))
  cases hdispute with
  | found d' hfind hsame =>
      have hlinked₀ : Linked (postgres.applyAll ws₀ db) :=
        hlinked.of_same hv (locking.le_applyAll ws₀ db)
          (applyAll_other fun w hw => by rw [hrecord w hw]; decide)
      exact .same (sameLedger_found hlinked₀ hfind hsame hgate htransfer hv₀ hfits.2.2.1)
  | opened hnew =>
      have hv₁ := locking.valid_applyAll hfits.2.1 hv₀
      have hfree := (Schema.accepts_insert.mp hfits.2.1.1).2.1
      have hfind : schema.find .disputes d.id (postgres.applyAll [.insert .disputes d]
          (postgres.applyAll ws₀ db)) = some d := by
        rw [applyAll_single, Schema.find_insert]
        have hnone : schema.find .disputes d.id (postgres.applyAll ws₀ db) = none := hfree
        rw [hnone, Option.none_or]
        exact if_pos rfl
      exact LedgerStep.before (ledgerStep_opened hsrc hfind hgate hnew htransfer hv₁ hfits.2.2.1
        hregisters.2.2.1) (sameLedger_of_writes (by simp [Write.table, ledgerTables]))

/-- An operation posts for its own source only. -/
theorem Commit.ledger (h : Commit op db ws) (hv : schema.Valid db) (hfits : locking.fitsAll ws db)
    (hlinked : Linked db) : LedgerStep op db (postgres.applyAll ws db) := by
  have hsame : (∀ w ∈ ws, w.table ∉ ledgerTables) → LedgerStep op db (postgres.applyAll ws db) :=
    fun hws => .same (sameLedger_of_writes hws)
  cases h with
  | plain tables =>
      have hplain : ∀ t ∈ plainTables, t ∉ ledgerTables := by decide
      exact hsame fun w hw => hplain _ (tables w hw)
  | credits src user n _ _ change =>
      have hcredits : ∀ t ∈ ledgerTables, t ≠ .credits ∧ t ≠ .creditTransactions := by decide
      exact .same (sameLedger_of_tables fun t ht => change.other (hcredits t ht).1 (hcredits t ht).2)
  | request userId data r _ _ => exact hsame (by simp [Write.table, ledgerTables])
  | review id review p _ _ => exact hsame (by simp [Write.table, ledgerTables])
  | charge seen g _ _ _ _ => exact hsame (by simp [Write.table, ledgerTables])
  | paid seen g txn call reviewed type refunded transferred registers =>
      rw [locking.fitsAll_append] at hfits
      rw [postgres.applyAll_append]
      refine LedgerStep.after (ledgerStep_refund ?_ reviewed type refunded transferred hv hfits.1
        registers) (sameLedger_of_writes (by simp [Write.table, ledgerTables]))
        (locking.le_applyAll _ _) (.update fun r => ⟨fun hs => hs, fun _ => by simp [RefundPatch.apply]⟩)
      rw [call, Operation.ledgerSource?]
  | failed seen message _ _ => exact hsame (by simp [Write.table, ledgerTables])
  | processed seen _ _ _ => exact hsame (by simp [Write.table, ledgerTables])
  | chargeback config req data r call type body delivery registers =>
      refine ledgerStep_delivery ?_ delivery hv hfits hlinked registers
      rw [call]
      simp only [Operation.ledgerSource?, type, body]
  | submitted e _ => exact hsame (by simp [Write.table, ledgerTables])
  | evidence id evidence _ _ => exact hsame (by simp [Write.table, ledgerTables])
  | outcome seen o fee now txn call stays transferred registers =>
      obtain ⟨d, hd, hd_same⟩ := stays
      rw [locking.fitsAll_append] at hfits
      rw [postgres.applyAll_append]
      refine LedgerStep.after (ledgerStep_outcome ?_ hd hd_same transferred hv hfits.1 registers)
        (sameLedger_of_writes (by simp [Write.table, ledgerTables])) (locking.le_applyAll _ _)
        (.of_other (by simp [Write.table]))
      rw [call, Operation.ledgerSource?]

end Steps

/-! ## Runs -/

/-- Disputes are linked to their reversals, and transactions have their reasons. -/
structure LedgerTrail (db : Data) : Prop where
  linked : Linked db
  explained : ∀ txn ∈ db .ledgerTransactions, ∃ src user n, Explained src txn user n db

section Runs

variable {ι : Type} [DecidableEq ι] {db : Database} {ops : ι → Operation}
  {s s' : Sys Stmt Data RowWrite RowLock Err Unit ι} {i : ι}

/-- Without disputes and transactions there is nothing to explain. -/
theorem ledgerTrail_of_none {db : Data} (hdisputes : db .disputes = [])
    (htxns : db .ledgerTransactions = []) : LedgerTrail db where
  linked := linked_of_none hdisputes
  explained txn htxn := by
    rw [htxns] at htxn
    cases htxn

/-- Commits keep the trail: the new transaction has its reason, and the reasons
of the others last. -/
theorem Commit.ledgerTrail {op : Operation} {db : Data} {ws : List RowWrite} (h : Commit op db ws)
    (hv : schema.Valid db) (hfits : locking.fitsAll ws db) (htrail : LedgerTrail db) :
    LedgerTrail (postgres.applyAll ws db) where
  linked := h.linked hv hfits htrail.linked
  explained := by
    have hlater : ∀ t ∈ db .ledgerTransactions,
        entriesOf t.id (postgres.applyAll ws db) = entriesOf t.id db →
        ∃ src user n, Explained src t user n (postgres.applyAll ws db) := by
      intro t ht hentries
      obtain ⟨src, user, n, hexplained⟩ := htrail.explained t ht
      exact ⟨src, user, n, hexplained.later (locking.le_applyAll ws db) h.later hentries⟩
    cases h.ledger hv hfits htrail.linked with
    | same same =>
        rw [same.transactions]
        exact fun t ht => hlater t ht (same.entries t.id)
    | posted src txn user n _ posted explained =>
        rw [posted.transactions]
        intro t ht
        rcases List.mem_append.mp ht with ht | ht
        · exact hlater t ht (posted.entries t ht)
        · obtain rfl := List.mem_singleton.mp ht
          exact ⟨src, user, n, explained⟩

theorem ledgerTrail_of_runs (hold : LedgerTrail db.rows)
    (h : Runs postgres AnyStep (operations db ops) s) : LedgerTrail s.db :=
  inv_of_commits hold (fun _ _ _ hv htrail hfits hcommit => hcommit.ledgerTrail hv hfits htrail) h

/-- What a step of a run does to the ledger. -/
theorem ledgerStep_of_runs (hold : LedgerTrail db.rows)
    (h : Runs postgres AnyStep (operations db ops) s) (hstep : Step postgres s i s') :
    LedgerStep (ops i) s.db s'.db := by
  rcases commit_of_step h hstep with hsame | ⟨ws, hv, hfits, hcommit, hdb⟩
  · rw [hsame]
    exact .same (.refl s.db)
  · rw [hdb]
    exact hcommit.ledger hv hfits (ledgerTrail_of_runs hold h).linked

/-- A chargeback, and the outcome of the dispute that it opens. -/
def chargebackThenWon (i : Fin 2) : Operation :=
  if i = 0 then .card constantHmac (chargebackUnder "event_1") else .dispute "a" (.outcome .WON)

/-- One after the other, up to the last step of the outcome. -/
def untilWon : List (Fin 2 × Choice Env) :=
  List.replicate 22 (0, .go (.ordinary "a")) ++ List.replicate 19 (1, .go (.ordinary "b"))

end Runs

end PaymentBilling
