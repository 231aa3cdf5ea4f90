import PaymentBilling.Spec.DisputeBooks
import PaymentBilling.Transact.Checked
import PaymentBilling.Transact.Solo

/-!
# Safety.DisputeBooks

Chargebacks and calls on disputes, one after the other: what a dispute adds to
the ledger in total, and what is left of the revenue.

The books of the disputes (`DisputeBooks`) are kept by every call, whether it
succeeds, is refused or fails.
-/

namespace PaymentBilling

open Relational Transact

/-- A step in the life of disputes: the delivery of a chargeback or a call. -/
inductive DisputeStep
  | chargeback (rawBody : List UInt8) (signature : Option String) (eventId : Js)
      (data : AuthorizeNetData)
  | onDispute (id : String) (call : DisputeCall)

/-- The program of a step, without its answer. -/
def DisputeStep.run (config : AuthorizeNetConfig) : DisputeStep → Action Unit
  | chargeback rawBody signature eventId data => do
    let _ ← AuthorizeNetWebhookController.handleWebhook config
      ⟨rawBody, signature, eventId, .str "chargeback.received", some data⟩
    return ()
  | onDispute id call => call.run id

/-- The ledger entries that a dispute has caused. -/
def disputeEntries (d : Dispute) (db : Data) : List LedgerEntry :=
  entriesUnder (reversalKey d.originalTransactionId) db ++
    (entriesUnder (outcomeKey d.id .WON) db ++ entriesUnder (outcomeKey d.id .LOST) db)

/-- The key is one of a dispute. -/
def IsDisputeKey (key : String) : Prop :=
  (∃ transactionId, key = reversalKey transactionId) ∨ ∃ id o, key = outcomeKey id o

/-- What a dispute in this status has added to the revenue. -/
def netRevenue (status : DisputeStatus) (amount : Int) : Int :=
  match status with
  | .WON => 0
  | _ => -amount

/-- What it has added to the asset account of its user. -/
def netAsset (status : DisputeStatus) (amount fee : Int) : Int :=
  match status with
  | .WON => 0
  | .LOST => -amount - fee
  | _ => -amount

/-- What it has added to the expenses. -/
def netExpense (status : DisputeStatus) (fee : Int) : Int :=
  match status with
  | .LOST => fee
  | _ => 0

/-- The effect of a dispute on the accounts. -/
structure NetEffect (fee : Int) (d : Dispute) (db : Data) : Prop where
  revenue : addedTo LedgerService.SYSTEM_USER_ID .REVENUE (disputeEntries d db) db =
    netRevenue d.status d.amount
  asset : addedTo d.userId .ASSET (disputeEntries d db) db = netAsset d.status d.amount fee
  expense : addedTo LedgerService.SYSTEM_USER_ID .EXPENSE (disputeEntries d db) db =
    netExpense d.status fee

section Net

variable {fee : Int} {d : Dispute} {db : Data}

/-- The slots that are booked for a dispute. -/
def bookedSlots (fee : Int) (d : Dispute) : List Slot :=
  match d.status with
  | .WON => reversalSlots d ++ outcomeSlots d fee .WON
  | .LOST => reversalSlots d ++ outcomeSlots d fee .LOST
  | _ => reversalSlots d

/-- The entries of a dispute add what its slots say. -/
theorem DisputeBooked.addedTo_eq (h : DisputeBooked fee d db) (hv : schema.Valid db) (user : String)
    (type : LedgerAccountType) :
    addedTo user type (disputeEntries d db) db = slotTotal user type (bookedSlots fee d) := by
  have houtcome : ∀ o : DisputeOutcome, addedTo user type (entriesUnder (outcomeKey d.id o) db) db =
      if d.status = o.status then slotTotal user type (outcomeSlots d fee o) else 0 := by
    intro o
    split
    · next hset => exact (h.resolved o hset).addedTo_eq hv user type
    · next hset => exact (h.unresolved o hset).addedTo_eq user type
  rw [disputeEntries, addedTo_append, addedTo_append, h.reversed.addedTo_eq hv, houtcome, houtcome]
  cases hs : d.status <;> simp [bookedSlots, hs, DisputeOutcome.status, slotTotal_append]

/-- A dispute that is booked has its net effect. -/
theorem DisputeBooked.netEffect (h : DisputeBooked fee d db) (hv : schema.Valid db) :
    NetEffect fee d db := by
  constructor
  · rw [h.addedTo_eq hv]
    cases hs : d.status <;>
      simp [bookedSlots, hs, reversalSlots, outcomeSlots, slotTotal, Slot.change, entryChange,
        Bookkeeping.signed, LedgerService.isDebitNormal, netRevenue]
  · rw [h.addedTo_eq hv]
    cases hs : d.status <;>
      simp [bookedSlots, hs, reversalSlots, outcomeSlots, slotTotal, Slot.change, entryChange,
        Bookkeeping.signed, LedgerService.isDebitNormal, netAsset, Int.sub_eq_add_neg]
  · rw [h.addedTo_eq hv]
    cases hs : d.status <;>
      simp [bookedSlots, hs, reversalSlots, outcomeSlots, slotTotal, Slot.change, entryChange,
        Bookkeeping.signed, LedgerService.isDebitNormal, netExpense]

end Net

/-! ## The steps keep the books -/

/-- A client that is alone and keeps the books of the disputes since `start`. -/
abbrev disputeProtocol (start : Data) : Protocol locking (DisputeBooks start) :=
  .solo locking (DisputeBooks start)

/-- The dispute that was read is open, or has this outcome by now. -/
def Resolvable (seen : Dispute) (outcome : DisputeOutcome) (db : Data) : Prop :=
  ∃ d, schema.find .disputes seen.id db = some d ∧ SameDispute seen d ∧
    ((∀ o : DisputeOutcome, d.status ≠ o.status) ∨ d.status = outcome.status)

section Steps

variable {start db db' : Data} {seen : Dispute} {outcome : DisputeOutcome}

/-- Credits are not in these books. -/
theorem DisputeBooks.credits {ws : List RowWrite} (h : DisputeBooks start db)
    (hw : ∀ w ∈ ws, w.table ∈ creditTables) : DisputeBooks start (postgres.applyAll ws db) := by
  refine h.other (locking.le_applyAll _ _) fun t ht => applyAll_other fun w hin he => ?_
  have hcredit := hw w hin
  rw [he] at hcredit
  revert hcredit ht
  cases t <;> decide

theorem wp_chargeback_books (config : AuthorizeNetConfig) (rawBody : List UInt8)
    (signature : Option String) (eventId : Js) (data : AuthorizeNetData) :
    (disputeProtocol start).wp (AuthorizeNetWebhookController.handleWebhook config
        ⟨rawBody, signature, eventId, .str "chargeback.received", some data⟩)
      (fun _ _ _ => True) {} db := by
  refine AuthorizeNetWebhookController.wp_handleChargeback _ rfl rfl
    (fun c db ws _ hw _ hi _ => ⟨hi.credits hw, trivial⟩) ?_
  intro ws₁ ws₂ c db _ hs hfits hrecord hx
  refine ⟨?_, trivial⟩
  rw [locking.fitsAll_append] at hfits
  rw [postgres.applyAll_append]
  have hbooks : DisputeBooks start (postgres.applyAll ws₁ db) := by
    refine hs.inv.other (locking.le_applyAll _ _) fun t ht => applyAll_other fun w hin he => ?_
    rw [hrecord w hin] at he
    subst he
    revert ht
    decide
  exact hbooks.commitChargeback (locking.valid_applyAll hfits.1 hs.valid) hfits.2 hx

theorem wp_attachEvidence_books (params : DisputeEvidenceCreate) :
    (disputeProtocol start).wp (DisputesService.attachEvidence params) (fun _ _ _ => True) {} db := by
  have hinsert : ∀ {row : DisputeEvidence} {db : Data}, DisputeBooks start db →
      DisputeBooks start (schema.apply (.insert .disputeEvidence row) db) := by
    intro row db h
    refine h.other (Schema.le_apply _ _) fun t ht => apply_insert_other ?_ _ _
    rintro rfl
    revert ht
    decide
  refine DisputesService.wp_attachEvidence _ (fun _ _ _ => trivial) (fun _ _ _ => trivial)
    fun seen db₁ hs₁ hseen => ⟨fun row db₂ hs₂ => ⟨hinsert hs₂.inv, trivial⟩, ?_⟩
  intro hopen row events db₂ db₃ hs₂ hs₃
  refine ⟨hs₃.inv.patch fun d hd hid o => ?_, trivial⟩
  -- nobody else has touched the dispute since it was read
  obtain rfl : db₂ = db₁ := hs₂.env
  obtain rfl : db₃ = schema.apply (.insert .disputeEvidence row) db₂ := hs₃.env
  rw [apply_insert_other (by decide)] at hd
  obtain rfl : d = seen := hs₁.valid.eq_of_id hd (Schema.mem_of_find hseen)
    (hid.trans (Schema.id_of_find hseen).symm)
  rw [hopen]
  show DisputeStatus.EVIDENCE_SUBMITTED = o.status ↔ DisputeStatus.OPEN = o.status
  cases o <;> decide

/-- Once an outcome may follow, its commit keeps the books. -/
theorem commit_books {t : Tx RowWrite RowLock} {fee : Int} (h : DisputeBooks start db)
    (hr : Resolvable seen outcome db) (hv : schema.Valid db) (hfits : locking.fitsAll t.writes db)
    (hfee : outcome = .LOST → fee = chargebackFee start)
    (hresolved : DisputesService.Resolved seen fee outcome t.writes db) :
    DisputeBooks start (postgres.view t db) ∧ Resolvable seen outcome (postgres.view t db) := by
  obtain ⟨d, hfind, hsame, hstatus⟩ := hr
  refine ⟨h.commitOutcome hv hfits hfind hsame hstatus hfee hresolved, ?_⟩
  obtain ⟨d', hfind', hsame'⟩ := dispute_of_le (locking.le_applyAll t.writes db) hfind
  refine ⟨d', hfind', ⟨hsame'.id.trans hsame.id, hsame'.userId.trans hsame.userId,
    hsame'.gatewayDisputeId.trans hsame.gatewayDisputeId,
    hsame'.originalTransactionId.trans hsame.originalTransactionId,
    hsame'.amount.trans hsame.amount⟩, .inr ?_⟩
  obtain ⟨txn, ws₁, ws₂, now, hws, -, -⟩ := hresolved.split
  rw [hws, postgres.applyAll_append, postgres.applyAll_append, applyAll_single,
    find_disputePatch] at hfind'
  obtain ⟨old, -, rfl⟩ := Option.map_eq_some_iff.mp hfind'
  rfl

theorem wp_setOutcome_books (id : String) (outcome : DisputeOutcome) :
    (disputeProtocol start).wp (DisputesService.setOutcome id outcome) (fun _ _ _ => True) {} db := by
  refine DisputesService.wp_setOutcome _ (fun _ _ _ _ => trivial) fun seen db₁ hs₁ hseen hpass => ?_
  have hopen : ∀ o : DisputeOutcome, seen.status ≠ o.status := by
    intro o he
    rw [he] at hpass
    cases o <;> exact List.not_mem_nil hpass
  have hid : seen.id = id := Schema.id_of_find hseen
  have hresolvable : Resolvable seen outcome db₁ := ⟨seen, hid ▸ hseen, .refl seen, .inl hopen⟩
  refine Protocol.wp_of_knowing _ (A := Resolvable seen outcome) ?_ ⟨_, (List.append_nil _).symm⟩
    hresolvable ?_
  · intro c db db' _ hs hr
    obtain rfl : db' = db := hs.env
    exact hr
  cases outcome with
  | WON =>
      refine DisputesService.wp_handleWon _ ?_ (fun _ _ _ _ => trivial) ?_
      · intro c db ws _ hw _ hi _
        refine ⟨⟨hi.1.credits hw, ?_⟩, trivial⟩
        obtain ⟨d, hfind, hrest⟩ := hi.2
        have hother : postgres.applyAll ws db .disputes = db .disputes :=
          applyAll_other fun w hin he => by
            have hcredit := hw w hin
            rw [he] at hcredit
            revert hcredit
            decide
        exact ⟨d, by rw [Schema.find, hother]; exact hfind, hrest⟩
      · intro r t c' db' _ _ _ hs hfits hresolved
        exact ⟨⟨commit_books hs.inv.1 hs.inv.2 hs.valid hfits (fun h => by cases h) hresolved, trivial⟩,
          fun _ => trivial⟩
  | LOST =>
      refine DisputesService.wp_handleLost _ (fun _ _ _ _ => trivial) ?_
      intro r t c' db₂ db' hs₂ _ _ _ hs hfits hresolved
      exact ⟨⟨commit_books hs.inv.1 hs.inv.2 hs.valid hfits (fun _ => hs₂.inv.1.fee) hresolved, trivial⟩,
        fun _ => trivial⟩

theorem wp_disputeStep_books (config : AuthorizeNetConfig) (step : DisputeStep) :
    (disputeProtocol start).wp (step.run config) (fun _ _ _ => True) {} db := by
  have hanswer : ∀ {α : Type} {p : Action α},
      (disputeProtocol start).wp p (fun _ _ _ => True) {} db →
      (disputeProtocol start).wp (p >>= fun _ => pure ()) (fun _ _ _ => True) {} db := by
    intro α p hp
    rw [Protocol.wp_bind]
    refine Protocol.wp_mono _ (fun r c db _ => ?_) hp
    cases r <;> trivial
  cases step with
  | chargeback rawBody signature eventId data =>
      exact hanswer (wp_chargeback_books config rawBody signature eventId data)
  | onDispute id call =>
      cases call with
      | evidence submittedBy evidenceType content metadata =>
          exact hanswer (wp_attachEvidence_books ⟨id, submittedBy, evidenceType, content, metadata⟩)
      | outcome o => exact hanswer (wp_setOutcome_books id o)

end Steps

/-- After any sequence of chargebacks and calls on disputes, each dispute has
its net effect on the accounts, and the revenue has lost the amounts of the
disputes that are not won. -/
theorem disputeEffect_net (config : AuthorizeNetConfig) (start : Database)
    (hdisputes : start.rows .disputes = [])
    (hledger : ∀ t ∈ start.rows .ledgerTransactions, ∀ key, t.idempotencyKey = some key →
      ¬IsDisputeKey key)
    (F : Faults Stmt RowWrite RowLock Err) (log : List (DisputeStep × Except Err Unit)) (db : Data)
    (h : Session postgres F (DisputeStep.run config) start.rows log db) :
    (∀ d ∈ db .disputes, NetEffect (chargebackFee start.rows) d db) ∧
      accountBalance LedgerService.SYSTEM_USER_ID .REVENUE db =
        accountBalance LedgerService.SYSTEM_USER_ID .REVENUE start.rows -
          (((db .disputes).filter (·.status ≠ .WON)).map (·.amount)).sum := by
  have hbooks : DisputeBooks start.rows start.rows := by
    refine ⟨rfl, fun d hd => ?_, fun transactionId _ t ht hk => ?_, fun id o _ t ht hk => ?_, ?_⟩
    · rw [hdisputes] at hd
      cases hd
    · exact hledger t ht _ hk (.inl ⟨transactionId, rfl⟩)
    · exact hledger t ht _ hk (.inr ⟨id, o, rfl⟩)
    · rw [hdisputes, List.map_nil, List.sum_nil, Int.add_zero]
  obtain ⟨hv, hend⟩ := h.inv (D := locking) start.valid hbooks fun step db _ _ =>
    wp_disputeStep_books config step
  refine ⟨fun d hd => (hend.disputes d hd).netEffect hv, ?_⟩
  have hlost : ((db .disputes).map revenueLost).sum =
      (((db .disputes).filter (·.status ≠ .WON)).map (·.amount)).sum := by
    generalize db .disputes = disputes
    induction disputes with
    | nil => rfl
    | cons d disputes ih =>
        rw [List.map_cons, List.sum_cons, ih, List.filter_cons, revenueLost]
        by_cases hwon : d.status = .WON <;> simp [hwon]
  have hrevenue := hend.revenue
  omega

/-- A gateway whose digest is always the same. -/
def constantHmac : AuthorizeNetConfig := ⟨fun _ _ => [1], "secret"⟩

/-- A user and the system user. -/
def twoUsers : Database :=
  .ofWrites [.insert .users ⟨"user"⟩, .insert .users ⟨LedgerService.SYSTEM_USER_ID⟩] (by decide)

/-- A charge of 100 cents is disputed, delivered again, answered and lost; the
outcome cannot be changed afterwards. -/
def lostDispute : List DisputeStep :=
  let data : AuthorizeNetData :=
    { userId := .str "user", transactionId := .str "charge_1", amount := .int 100 }
  [.chargeback [] (some "01") (.str "event_1") data, .chargeback [] (some "01") (.str "event_2") data,
    .onDispute "a" (.evidence "admin" "text" "content" []), .onDispute "a" (.outcome .LOST),
    .onDispute "a" (.outcome .WON)]

/-- A lost dispute costs its amount in revenue. -/
theorem lostDispute_net :
    ∃ log db, Session postgres noFault (DisputeStep.run constantHmac) twoUsers.rows log db ∧
      (db .disputes).map (fun d => (d.status, d.amount)) = [(.LOST, 100)] ∧
      (∀ d ∈ db .disputes, NetEffect (chargebackFee twoUsers.rows) d db) ∧
      accountBalance LedgerService.SYSTEM_USER_ID .REVENUE db =
        accountBalance LedgerService.SYSTEM_USER_ID .REVENUE twoUsers.rows -
          (((db .disputes).filter (·.status ≠ .WON)).map (·.amount)).sum := by
  have hplay := Engine.session_play (E := postgres) (F := noFault)
    (fun _ => .go (.ordinary "a"))
    (fun _ => trivial) (DisputeStep.run constantHmac)
    lostDispute twoUsers.rows
  refine ⟨_, _, hplay, by decide +kernel, ?_⟩
  refine disputeEffect_net constantHmac twoUsers rfl (fun t ht => ?_) noFault _ _ hplay
  cases ht

end PaymentBilling
