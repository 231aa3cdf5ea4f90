import PaymentBilling.Spec.CreditProgress
import PaymentBilling.Spec.Reversals
import PaymentBilling.Spec.TransferProgress
import PaymentBilling.Transact.Atomic

/-!
# Spec.ChargebackProgress

When the first part of a chargeback goes through: its dispute can be opened, or
is there and points to no reversal, and the ledger takes the reversal.  A
chargeback that has got as far as its credits tells that it was so.
-/

namespace PaymentBilling

open Relational Transact

namespace AuthorizeNetWebhookController

/-- A dispute that is found points to no reversal; one that is not can be opened. -/
def Unreversed (data : AuthorizeNetData) : Option Dispute → Prop
  | some d => (d.ledgerReversalTxnId.filter (· ≠ "")).isSome = false
  | none => (∃ txn, data.transactionId = .str txn) ∧
      ∃ reason, (data.reason.or (.str "Chargeback received")).nullableString? = some reason

/-- The dispute of a charge can be opened, or is there and not reversed. -/
def DisputeReady (data : AuthorizeNetData) (db : Data) : Prop :=
  Unreversed data
    (schema.findBy .disputes (.gatewayDisputeId (gatewayDisputeKey data.transactionId.text)) db)

/-- The reversal of `n` from the charge of `user` is in the ledger, or there is
room for it. -/
def ReversalFits (transactionId user : String) (n : Int) (db : Data) : Prop :=
  KeyTaken (reversalKey transactionId) db ∨ (HasRoom user .ASSET .CREDIT n db ∧
    HasRoom LedgerService.SYSTEM_USER_ID .REVENUE .DEBIT n db)

/-- A chargeback gets as far as its credits, which can be taken back. -/
structure TakesBack (data : AuthorizeNetData) (db : Data) : Prop where
  dispute : DisputeReady data db
  admin : HasUser LedgerService.SYSTEM_USER_ID db
  books : ∀ user n, data.userId = .str user → data.amount = .int n →
    ReversalFits data.transactionId.text user n db
  credits : CreditsService.Deducts data.userId data.amount
    (chargebackCreditKey data.transactionId.text) db

section Progress

variable {W : Env → Prop} {data : AuthorizeNetData} {v db : Data}

/-! ## Going through -/

/-- The user of a deduction that can be made exists, and the amount fits. -/
theorem deductible {userId amount : Js} {key : String} (hv : schema.Valid db)
    (h : CreditsService.Deducts userId amount key db) :
    ∃ user n, userId = .str user ∧ amount = .int n ∧ 0 < n ∧ inInt32 n = true ∧ HasUser user db := by
  obtain ⟨user, n, huser, hamount, hpos, -, hcover⟩ := h
  refine ⟨user, n, huser, hamount, hpos, ?_⟩
  cases hfind : schema.findBy .credits (.userId user) db with
  | none =>
      rw [balanceOf, hfind] at hcover
      have hzero : n ≤ 0 := hcover
      omega
  | some row =>
      rw [balanceOf, hfind] at hcover
      have hcover : n ≤ row.balance := hcover
      have hfit : inInt32 row.balance = true := hv.fits .credits row (Schema.mem_of_findBy hfind)
      constructor
      · simp only [inInt32, decide_eq_true_eq] at hfit ⊢
        omega
      · exact hasUser_of_balance hv hfind

/-- The reversal of a charge can be written when the ledger takes it. -/
theorem goes_reverseCharge {d : Dispute} {user : String} {n : Int} (hv : schema.Valid v)
    (hrow : schema.find .disputes d.id v = some d) (huser : data.userId = .str user)
    (hamount : data.amount = .int n) (hpos : 0 < n) (hn : inInt32 n = true) (hexists : HasUser user v)
    (hadmin : HasUser LedgerService.SYSTEM_USER_ID v)
    (h : ReversalFits data.transactionId.text user n v) :
    postgres.Goes (LocksOf (.disputes :: ledgerTables)) W (reverseCharge data d) (fun _ _ => True) v := by
  have hlocks : ∀ l, LocksOf ledgerTables l → LocksOf (.disputes :: ledgerTables) l :=
    fun l hl => List.mem_cons_of_mem _ hl
  let record (asset revenue : String) : Action TransactionResponse :=
    LedgerService.recordTransaction data.userId
      ("Chargeback reversal for transaction " ++ data.transactionId.text)
      (chargebackEntries asset revenue data.amount) .COMPLETED
      [("disputeId", .str d.id), ("chargebackEventId", .str "chargeback.received"),
        ("originalTransactionId", data.transactionId), ("type", .str "chargeback_reversal")]
      true (some (reversalKey data.transactionId.text))
  have hbook : postgres.Goes (LocksOf ledgerTables) W
      (LedgerService.getOrCreateAssetAccount data.userId >>= fun asset =>
        LedgerService.getOrCreateSystemAccount .REVENUE >>= fun revenue => record asset revenue)
      (fun _ _ => True) v := by
    rw [huser]
    refine LedgerService.goes_transfer hv (reversalKey_ne _) hexists hadmin
      (h.imp_right fun hroom asset revenue v' hopened hasset hrevenue => ⟨?_, ?_⟩)
    · rw [huser]
      exact ownerKnown_of_hasUser (exists_find_mono hopened.le hexists)
    · rw [hamount]
      exact postable_pair hopened.valid hrevenue hasset (by decide) hpos hn
        (hopened.hasRoom.mpr hroom.2) (hopened.hasRoom.mpr hroom.1)
  have heq : reverseCharge data d = (LedgerService.getOrCreateAssetAccount data.userId >>= fun asset =>
      LedgerService.getOrCreateSystemAccount .REVENUE >>= fun revenue => record asset revenue) >>=
        fun reversalTxn => query (.disputeUpdate d.id
          (.ledgerReversalTxnId reversalTxn.transaction.id)) >>= fun _ => pure () := by
    rw [reverseCharge, Prog.bind_assoc]
    congr 1
    funext asset
    rw [Prog.bind_assoc]
    rfl
  rw [heq]
  refine Engine.goes_bind (((hbook.valid (D := locking) hv).locks hlocks).mono fun _ v' h' => ?_)
  obtain ⟨r, hr⟩ := exists_find_mono (t := .disputes) (i := d.id) h'.2.2 ⟨d, hrow⟩
  refine Engine.goes_bind (goes_query (by simp [WritesIn, Stmt.writes]) rfl
    (fun env _ => disputeUpdate_ok h'.2.1 hr) fun _ _ _ _ _ => ?_)
  exact Engine.goes_pure trivial

theorem ReversalFits.congr {transactionId user : String} {n : Int}
    (hsame : ∀ t ∈ ledgerTables, v t = db t) (h : ReversalFits transactionId user n db) :
    ReversalFits transactionId user n v := by
  have hbalance : ∀ user type, accountBalance user type v = accountBalance user type db :=
    fun user type => accountBalance_of_same (hsame _ (by decide))
  rw [ReversalFits, KeyTaken, Schema.findBy, hsame .ledgerTransactions (by decide), HasRoom, HasRoom,
    hbalance, hbalance]
  exact h

theorem DisputeReady.congr (hsame : v .disputes = db .disputes) (h : DisputeReady data db) :
    DisputeReady data v := by
  rw [DisputeReady, Schema.findBy, hsame]
  exact h

theorem hasUser_congr {user : String} (hsame : v .users = db .users) (h : HasUser user db) :
    HasUser user v := by
  rw [HasUser, Schema.find, hsame]
  exact h

/-- The dispute is opened, or found, and the reversal written. -/
theorem goes_openReversal {user : String} {n : Int} (hv : schema.Valid v)
    (hready : DisputeReady data v) (huser : data.userId = .str user) (hamount : data.amount = .int n)
    (hpos : 0 < n) (hn : inInt32 n = true) (hexists : HasUser user v)
    (hadmin : HasUser LedgerService.SYSTEM_USER_ID v)
    (h : ReversalFits data.transactionId.text user n v) :
    postgres.Goes (LocksOf (.disputes :: ledgerTables)) W (openReversal data)
      (fun r _ => ∃ d, r = some d) v := by
  have hrest : ∀ (d : Dispute) v', schema.Valid v' → (∀ t ≠ Table.disputes, v' t = v t) →
      schema.find .disputes d.id v' = some d →
      (d.ledgerReversalTxnId.filter (· ≠ "")).isSome = false →
      postgres.Goes (LocksOf (.disputes :: ledgerTables)) W
        (if (d.ledgerReversalTxnId.filter (· ≠ "")).isSome then pure none
          else reverseCharge data d >>= fun _ => pure (some d)) (fun r _ => ∃ d, r = some d) v' := by
    intro d v' hv' hsame hrow hopen
    rw [hopen, if_neg Bool.false_ne_true]
    refine Engine.goes_bind ((goes_reverseCharge hv' hrow huser hamount hpos hn
      (hasUser_congr (hsame _ (by decide)) hexists) (hasUser_congr (hsame _ (by decide)) hadmin)
      (h.congr fun t ht => hsame t fun he => ?_)).mono fun _ _ _ => ?_)
    · rw [he] at ht
      exact absurd ht (by decide)
    · exact Engine.goes_pure ⟨d, rfl⟩
  unfold openReversal DisputesService.createDispute
  rw [Prog.bind_assoc]
  refine Engine.goes_bind (goes_query (by simp [WritesIn, Stmt.writes]) rfl
    (fun env _ => ⟨_, _, disputeFindByGateway_ok _⟩) fun env found ws _ hx => ?_)
  obtain ⟨rfl, hfound⟩ := exec_disputeFindByGateway hx
  have hfind : found = schema.findBy .disputes
    (.gatewayDisputeId (gatewayDisputeKey data.transactionId.text)) v := hfound
  rw [DisputeReady, ← hfind] at hready
  cases found with
  | some d => exact hrest d v hv (fun _ _ => rfl) (hv.find_of_mem (Schema.mem_of_findBy hfind.symm)) hready
  | none =>
      obtain ⟨⟨txn, htxn⟩, reason, hreason⟩ := hready
      refine Engine.goes_bind (goes_query (by simp [WritesIn, Stmt.writes]) rfl
        (fun env _ => disputeCreate_ok huser htxn hamount hn hreason hexists hfind.symm)
          fun env d ws _ hx => ?_)
      have hv' : schema.Valid (postgres.applyAll ws v) :=
        locking.valid_applyAll (locking.fitsAll_of_exec hv hx) hv
      obtain ⟨_, _, _, _, -, -, -, -, rfl, hd⟩ := exec_disputeCreate hx
      refine hrest d _ hv' (fun t ht => ?_) (hv'.find_of_mem ?_) (by rw [hd]; rfl)
      · exact apply_insert_other ht _ _
      · rw [applyAll_single, Schema.apply_insert_self]
        simp

/-- The record of the event, and the first part of the chargeback. -/
theorem goes_delivery {id type : String} (hv : schema.Valid db)
    (hnew : schema.find .processedWebhooks id db = none) (h : TakesBack data db) :
    postgres.Goes (LocksOf (.processedWebhooks :: .disputes :: ledgerTables)) W
      (query (.processedWebhookCreate (.str id) "authorize_net" (.str type)) >>= fun _ =>
        openReversal data) (fun r _ => ∃ d, r = some d) db := by
  obtain ⟨user, n, huser, hamount, hpos, hn, hexists⟩ := deductible hv h.credits
  refine Engine.goes_bind (goes_query (by simp [WritesIn, Stmt.writes]) rfl
    (fun env _ => processedWebhookCreate_ok hnew) fun env row ws _ hx => ?_)
  have hv' : schema.Valid (postgres.applyAll ws db) :=
    locking.valid_applyAll (locking.fitsAll_of_exec hv hx) hv
  obtain ⟨_, _, -, -, rfl, -⟩ := exec_processedWebhookCreate hx
  have hsame : ∀ t ≠ Table.processedWebhooks,
      postgres.applyAll [.insert .processedWebhooks row] db t = db t := fun t ht => by
    rw [applyAll_single, apply_insert_other ht]
  refine Engine.Goes.locks (fun l hl => List.mem_cons_of_mem _ hl) (goes_openReversal hv'
    (h.dispute.congr (hsame _ (by decide))) huser hamount hpos hn
    (hasUser_congr (hsame _ (by decide)) hexists) (hasUser_congr (hsame _ (by decide)) h.admin)
    ((h.books user n huser hamount).congr fun t ht => hsame t fun he => ?_))
  rw [he] at ht
  exact absurd ht (by decide)

/-! ## What a chargeback tells -/

/-- A chargeback that gets past its dispute was ready for it. -/
theorem wp_delivery_ready {event : AuthorizeNetEvent} {trace : List (Event Stmt Err)} :
    soloProtocol.wp (query (.processedWebhookCreate event.eventId "authorize_net" event.type) >>=
        fun _ => openReversal data) (fun r _ _ => ∀ d, r = .ok (some d) → DisputeReady data db)
      ⟨[{}], trace⟩ db := by
  rw [Protocol.wp_bind]
  refine Protocol.wp_exec_tx _ (fun _ _ _ _ h => by cases h) fun env row ws db₁ hs₁ hx => ?_
  obtain rfl : db₁ = db := hs₁.env
  have hsame : ∀ held, postgres.view ⟨[] ++ ws, held⟩ db₁ .disputes = db₁ .disputes := by
    obtain ⟨_, _, -, -, rfl, -⟩ := exec_processedWebhookCreate hx
    intro held
    rw [Engine.view, List.nil_append, applyAll_single, apply_insert_other (by decide)]
  rw [Protocol.bindPost_ok]
  unfold openReversal DisputesService.createDispute
  rw [Prog.bind_assoc, Protocol.wp_bind]
  refine Protocol.wp_exec_tx _ (fun _ _ _ _ h => by cases h) fun env found ws₂ db₂ hs₂ hx₂ => ?_
  obtain rfl : db₂ = db₁ := hs₂.env
  obtain ⟨rfl, hfound⟩ := exec_disputeFindByGateway hx₂
  rw [Schema.findBy, hsame] at hfound
  have hready : Unreversed data found → DisputeReady data db₂ := by
    intro h
    rw [hfound] at h
    exact h
  rw [Protocol.bindPost_ok]
  cases found with
  | some d =>
      cases hopen : (d.ledgerReversalTxnId.filter (· ≠ "")).isSome with
      | false => exact Protocol.wp_of_always fun _ _ _ _ _ => hready hopen
      | true =>
          show soloProtocol.wp (if (d.ledgerReversalTxnId.filter (· ≠ "")).isSome then _ else _) _ _ _
          rw [hopen, if_pos rfl]
          exact fun _ h => by cases h
  | none =>
      rw [Protocol.wp_bind]
      refine Protocol.wp_exec_tx _ (fun _ _ _ _ h => by cases h) fun env d ws₃ db₃ hs₃ hx₃ => ?_
      obtain ⟨_, txn, _, reason, -, htxn, -, hreason, -, -⟩ := exec_disputeCreate hx₃
      exact Protocol.wp_of_always fun _ _ _ _ _ => hready ⟨⟨txn, htxn⟩, reason, hreason⟩

/-- The ledger took the reversal of a chargeback that got as far as its credits. -/
theorem takesBack_of_delivered {d : Dispute} {ws : List RowWrite} (hv : schema.Valid db)
    (hfits : locking.fitsAll ws db) (hx : (deliveryEffect data).rel (some d) ws db)
    (hready : DisputeReady data db) (hcredits : CreditsService.Deducts data.userId data.amount
      (chargebackCreditKey data.transactionId.text) db) : TakesBack data db := by
  obtain ⟨_, ws₀, ws', rfl, hrecord, d', ws₁, rest, rfl, ⟨-, hopened⟩, hrest⟩ := hx
  have hrecord : ∀ w ∈ ws₀, w.table = .processedWebhooks := hrecord
  beta_reduce at hrest
  split at hrest
  · obtain ⟨h, -⟩ := hrest
    cases h
  obtain ⟨txn, ws₂, _, rfl, htransfer, -, rfl⟩ := hrest
  have hx := transferred_of_rel htransfer
  -- the record and the dispute are on other tables than what the ledger reads
  have hsame : ∀ t ∉ [Table.processedWebhooks, .disputes],
      postgres.applyAll ws₁ (postgres.applyAll ws₀ db) t = db t := by
    intro t ht
    simp only [List.mem_cons, List.not_mem_nil, or_false, not_or] at ht
    have hopen : ∀ w ∈ ws₁, w.table = .disputes := by
      rcases hopened with ⟨rfl, -⟩ | ⟨rfl, -⟩
      · exact List.forall_mem_nil _
      · exact List.forall_mem_singleton.mpr rfl
    rw [applyAll_other fun w hw he => ht.2 (he.symm.trans (hopen w hw)),
      applyAll_other fun w hw he => ht.1 (he.symm.trans (hrecord w hw))]
  obtain ⟨hfits₀, hfits'⟩ := locking.fitsAll_append.mp hfits
  obtain ⟨hfits₁, hfits''⟩ := locking.fitsAll_append.mp hfits'
  obtain ⟨hfits₂, -⟩ := locking.fitsAll_append.mp hfits''
  have hv₁ := locking.valid_applyAll hfits₁ (locking.valid_applyAll hfits₀ hv)
  obtain ⟨_, admin, -, hadmin, -, hexists⟩ := hasUser_of_transferred hx hv₁ hfits₂
  obtain rfl := Js.str.inj hadmin
  refine ⟨hready, hasUser_congr (hsame .users (by decide)).symm hexists, fun user n huser hamount => ?_,
    hcredits⟩
  refine ReversalFits.congr (fun t ht => (hsame t fun hin => ?_).symm) ?_
  · revert ht
    simp only [List.mem_cons, List.not_mem_nil, or_false] at hin
    rcases hin with rfl | rfl
    · decide
    · decide
  · rcases hx.posted hv₁ hfits₂ with hunposted | ⟨hfresh, -⟩
    · have hknown : Unposted (some (reversalKey data.transactionId.text)) _ _ := hunposted
      exact .inl (hknown.keyTaken hv₁)
    · have hslots := chargebackTransfer_slots (d := { d with userId := user, amount := n }) huser hamount
      have hroom := room_of_transferred hx hv₁ hfits₂ hfresh hslots
        (show LedgerAccountType.REVENUE ≠ .ASSET by decide)
      exact .inr ⟨hroom.2, hroom.1⟩

end Progress

end AuthorizeNetWebhookController

end PaymentBilling
