import PaymentBilling.Safety.RefundStatus
import PaymentBilling.Safety.RefundedValue
import PaymentBilling.Spec.TransferProgress

/-!
# Safety.RefundCompletion

Which approved refund requests can be processed.

A call alone, whose gateway refunds what it is asked to and whose statements do
not fail, completes a request exactly when what the request asks for can be
written; any other request it leaves approved.
-/

namespace PaymentBilling

open Relational Transact RefundsService

/-- The gateway answers, and refunds what it is asked to. -/
structure Refunding (env : Env) : Prop where
  answers : env.lost = none
  inFull : ∀ gateway params, (env.refund gateway params).refundedAmount = .int params.amount

/-- What the gateway refunds for a request: what it did before, or the amount. -/
def refundedFor (request : RefundRequest) (db : Data) : Js :=
  ((schema.find .gatewayRefunds (refundKey request.id) db).map (·.refundedAmount)).getD
    (.int request.amount)

/-- The reversal of a payment is in the ledger, or there is room for it. -/
structure Reversible (request : RefundRequest) (amount : Js) (db : Data) : Prop where
  admin : HasUser LedgerService.SYSTEM_USER_ID db
  room : KeyTaken (refundLedgerKey request.id) db ∨ ∃ n, amount = .int n ∧ 0 < n ∧
    inInt32 n = true ∧ HasRoom LedgerService.SYSTEM_USER_ID .REVENUE .DEBIT n db ∧
      HasRoom request.userId .ASSET .CREDIT n db

/-- What the request asks for can be written. -/
def Processable (request : RefundRequest) (db : Data) : Prop :=
  match request.type with
  | .CREDITS =>
    0 < request.amount ∧
      CreditsService.Grantable request.userId request.amount (refundKey request.id) db
  | .PAYMENT =>
    IsPaid request ∨ (request.gatewayType ≠ none ∧
      request.originalGatewayTransactionId.filter (· ≠ "") ≠ none ∧
        Reversible request (refundedFor request db) db)

section Going

variable {W : Env → Prop} {request : RefundRequest} {v db : Data}

/-- The rows of a refund can be written when its reversal has room. -/
theorem goes_recordRows {result : RefundResult} (hv : schema.Valid v)
    (hrow : schema.find .refundRequests request.id v = some request)
    (h : Reversible request result.refundedAmount v) :
    postgres.Goes (LocksOf (.refundRequests :: ledgerTables)) W (recordRows request result)
      (fun _ _ => True) v := by
  have hlocks : ∀ l, LocksOf ledgerTables l → LocksOf (.refundRequests :: ledgerTables) l :=
    fun l hl => List.mem_cons_of_mem _ hl
  have huser : HasUser request.userId v := hasUser_of_request hv (Schema.mem_of_find hrow)
  refine Engine.goes_bind (((LedgerService.goes_accountUpsert hv huser).locks hlocks).mono
    fun asset v₁ h₁ => ?_)
  obtain ⟨hasset, hopened₁⟩ := h₁
  have hadmin : HasUser LedgerService.SYSTEM_USER_ID v₁ := exists_find_mono hopened₁.le h.admin
  refine Engine.goes_bind (((LedgerService.goes_accountUpsert hopened₁.valid hadmin).locks hlocks).mono
    fun revenue v₂ h₂ => ?_)
  obtain ⟨hrevenue, hopened₂⟩ := h₂
  have hopened := hopened₁.trans hopened₂
  have hrecord : KeyTaken (refundLedgerKey request.id) v₂ ∨ OwnerKnown (.str request.userId) v₂ ∧
      Postable (refundEntries asset revenue result.refundedAmount) v₂ := by
    cases h.room with
    | inl htaken => exact .inl (hopened.keyTaken.mpr htaken)
    | inr hroom =>
        obtain ⟨n, hamount, hpos, hn, hroom, hroom'⟩ := hroom
        refine .inr ⟨⟨some request.userId, rfl, fun user hu => ?_⟩, ?_⟩
        · obtain rfl := Option.some.inj hu
          exact exists_find_mono hopened.le huser
        · rw [hamount]
          exact postable_pair hopened.valid hrevenue (hasset.mono hopened₂.le) (by decide) hpos hn
            (hopened.hasRoom.mpr hroom) (hopened.hasRoom.mpr hroom')
  refine Engine.goes_bind ((((LedgerService.goes_recordTransaction hopened.valid
    (refundLedgerKey_ne request.id) hrecord).valid (D := locking) hopened.valid).locks hlocks).mono
      fun _ v₃ h₃ => ?_)
  obtain ⟨r, hr⟩ := exists_find_mono (t := .refundRequests) (i := request.id)
    (locking.le_trans hopened.le h₃.2.2) ⟨request, hrow⟩
  refine Engine.goes_bind (goes_query (by simp [WritesIn, Stmt.writes]) rfl
    (fun env _ => refundUpdate_ok (.inr ⟨_, rfl⟩) h₃.2.1 hr) fun _ _ _ _ _ => ?_)
  exact Engine.goes_pure trivial

/-- The deduction of a refund gives up at most. -/
theorem sure_deductRefunded {t : Tx RowWrite RowLock} {ts : List (Tx RowWrite RowLock)}
    {trace : List (Event Stmt Err)} (hv : schema.Valid db) (hs : locking.StackOk (t :: ts) db) :
    postgres.Sure W (deductRefunded request) (fun r c' _ => r = .ok () ∧ ∃ t', c'.stack = t' :: ts)
      ⟨t :: ts, trace⟩ db := by
  have hreturns : postgres.Sure W (deductRefunded request) (fun r _ _ => r = .ok ())
      ⟨t :: ts, trace⟩ db := by
    refine Engine.sure_tryCatch (Engine.sure_of_always fun r c db => ?_)
    cases r with
    | ok _ => rfl
    | error _ => rfl
  have hwp := soloProtocol.wp_frame (anyStmt_of_only (deductRefunded_only request))
    (Protocol.wp_of_keeps (P := soloProtocol) (fun _ _ _ => ⟨trivial, trivial⟩)
      (deductRefunded request) ⟨t :: ts, trace⟩ db)
  refine (hreturns.and (Protocol.sure_of_wp hv hs hwp)).mono fun r c' db' hr => ⟨hr.1, ?_⟩
  obtain ⟨-, hframe⟩ := hr.2.1
  obtain ⟨ws, held, hstack, -⟩ := hframe.grows
  exact ⟨_, hstack⟩

/-- The transaction of a refund is committed when its reversal has room. -/
theorem sure_recordRefund {result : RefundResult} {trace : List (Event Stmt Err)}
    (hv : schema.Valid db) (hrow : schema.find .refundRequests request.id db = some request)
    (h : Reversible request result.refundedAmount db) :
    postgres.Sure W (recordRefund request result) (fun r c' _ => r = .ok () ∧ c'.stack = [])
      ⟨[], trace⟩ db := by
  refine Engine.sure_transaction (Engine.sure_bind ?_)
  refine ((Engine.Goes.sure (t := {}) (by simp) (goes_recordRows hv hrow h)).ordered (D := locking) hv
    Discipline.StackOk.nil.push).mono fun r c₁ db₁ hr => ?_
  obtain ⟨⟨_, t, rfl, rfl, hstack, -⟩, -, hs₁⟩ := hr
  obtain ⟨stack₁, trace₁⟩ := c₁
  obtain rfl : stack₁ = [t] := hstack
  refine (sure_deductRefunded hv hs₁).mono fun r c₂ db₂ hr => ?_
  obtain ⟨rfl, t', hstack₂⟩ := hr
  exact ⟨t', hstack₂, rfl, rfl⟩

/-- A gateway refunds in full, or has refunded before. -/
theorem sure_refundCharge {gateway : PaymentGateway} {txn : String} {trace : List (Event Stmt Err)}
    (hv : schema.Valid db) :
    postgres.Sure Refunding
      (refundCharge gateway ⟨txn, request.amount, refundKey request.id⟩) (fun r c' db' =>
        ∃ result, r = .ok result ∧ result.refundedAmount = refundedFor request db ∧
          c'.stack = [] ∧ schema.Valid db' ∧ ∀ t, t ≠ .gatewayRefunds → db' t = db t)
      ⟨[], trace⟩ db := by
  refine Engine.sure_bind (Engine.sure_exec_auto fun env hw => ?_)
  obtain ⟨row, ws, hx, htable, hamount⟩ := @refundCharge_ok env db gateway
    ⟨txn, request.amount, refundKey request.id⟩
  rw [hx, hw.answers]
  rw [hw.inFull] at hamount
  exact ⟨_, rfl, hamount, rfl, locking.valid_applyAll (locking.fitsAll_of_exec hv hx) hv,
    fun t ht => applyAll_other fun w hin he => ht (he.symm.trans (htable w hin))⟩

/-! ## What is needed -/

/-- A transfer that is committed had room. -/
theorem reversible_of_transferred {amount : Js} {txn : LedgerTransaction} {ws : List RowWrite}
    (hv : schema.Valid db) (hfits : locking.fitsAll ws db)
    (h : Transferred (refundTransfer request amount) txn ws db) : Reversible request amount db := by
  have hv' : schema.Valid (postgres.applyAll ws db) := locking.valid_applyAll hfits hv
  constructor
  · obtain ⟨_, user₂, _, _, opened, recorded, -, husers, -, -, -, haccount, -⟩ := h.split
    obtain rfl := Js.str.inj husers
    obtain ⟨account, hfind, huser, -⟩ := haccount
    have hexists := hasUser_of_account hv' (Schema.mem_of_find hfind)
    rw [huser, HasUser, Schema.find, h.other (by decide)] at hexists
    exact hexists
  · obtain ⟨_, _, _, _, opened, recorded, -, -, rfl, hopens, -, -, hrecord⟩ := h.split
    have hfits' := locking.fitsAll_append.mp hfits
    have hknown : ∀ k t, t ∈ db .ledgerTransactions → t.idempotencyKey = some k →
        (refundTransfer request amount).key = some k → KeyTaken (refundLedgerKey request.id) db := by
      intro k t ht htk hk
      obtain rfl := Option.some.inj hk
      exact ⟨t, hv.findBy_of_mem ht (by simp [schema, htk])⟩
    rcases hrecord with ⟨-, htxn, k, hk, htk⟩ | ⟨lines, hp, -, hlines⟩
    · have hmem : txn ∈ postgres.applyAll opened db .ledgerTransactions := Schema.mem_of_find htxn
      rw [hopens.applyAll_of_ne (by decide)] at hmem
      exact .inl (hknown k txn hmem htk hk)
    · cases hlines with
      | @cons _ line _ lines hline hlines =>
      have hentry : line.entry ∈ (line :: lines).map Line.entry := List.mem_cons_self
      have hamount : amount = .int line.entry.amount := hline.amount
      have hn : inInt32 line.entry.amount = true := by
        refine hv'.fits .ledgerEntries line.entry ?_
        rw [postgres.applyAll_append, hp.entries]
        exact List.mem_append_right _ hentry
      rw [hamount] at h
      cases h.posted hv hfits with
      | inl hunposted =>
          obtain ⟨k, hk, t, ht, htk⟩ := hunposted.known
          exact .inl (hknown k t ht htk hk)
      | inr hposted =>
          have hbalance := (hposted.2 _ refundTransfer_hasSlots).balance
          have htotal := slotTotal_refundSlots request.userId line.entry.amount
          refine .inr ⟨_, hamount, hp.balanced.positive _ hentry, hn, ?_, ?_⟩
          · have hroom := accountBalance_inRange hv' LedgerService.SYSTEM_USER_ID .REVENUE
            rw [hbalance, htotal.2] at hroom
            exact hroom
          · have hroom := accountBalance_inRange hv' request.userId .ASSET
            rw [hbalance, htotal.1] at hroom
            exact hroom

/-- Only the ledger and the users count. -/
theorem Reversible.congr {amount : Js} {db' : Data} (h : Reversible request amount db')
    (hsame : ∀ t ∈ Table.users :: ledgerTables, db' t = db t) : Reversible request amount db := by
  obtain ⟨hadmin, hroom⟩ := h
  have hbalance : ∀ user type, accountBalance user type db' = accountBalance user type db :=
    fun user type => accountBalance_of_same (hsame _ (by decide))
  constructor
  · rw [HasUser, Schema.find, hsame _ (by decide)] at hadmin
    exact hadmin
  · simp only [KeyTaken, Schema.findBy, hsame .ledgerTransactions (by decide), HasRoom, hbalance]
      at hroom
    exact hroom

/-- A refund is recorded only if its reversal has room. -/
theorem wp_recordRefund_reversible {result : RefundResult} {c : LocalState} :
    soloProtocol.wp (recordRefund request result) (fun r _ _ =>
      r = .ok () → Reversible request result.refundedAmount db) c db := by
  have hbody : recordRefund request result =
      transaction (recordRows request result >>= fun _ => deductRefunded request >>= pure) := by
    rw [Prog.bind_pure]
    rfl
  rw [hbody]
  refine Protocol.wp_mono _ (fun r c' db' hr hok => ?_) (Protocol.wp_transaction_alone
    (Y := fun _ b => Effect.pure locking b)
    (M := fun _ _ _ db₁ => ∀ t ∉ creditTables, db₁ t = db t)
    (fun _ => does_recordRows request result) (fun _ => anyStmt_of_only (deductRefunded_only request))
    (fun _ c₁ => Protocol.wp_mono _ (fun _ _ _ hr => ⟨fun _ _ => hr.1.1, hr.2⟩)
      (Protocol.wp_and _ wp_deductRefunded_alone (wp_sameTables (deductRefunded_only request))))
    fun _ _ b _ => Protocol.does_pure b)
  obtain ⟨_, _, _, db₁, ws₁, ws₂, -, hsame, hv₁, hfits, hx, hy, -⟩ := hr () hok
  obtain ⟨response, ws, ws', rfl, htransfer, -⟩ := hx
  rw [List.append_assoc, locking.fitsAll_append] at hfits
  exact (reversible_of_transferred hv₁ hfits.1 (transferred_of_rel htransfer)).congr
    fun t ht => hsame t (by revert ht; cases t <;> decide)

/-! ## Moving the money -/

/-- The money of a request is moved when what it asks for can be written. -/
theorem sure_dispatch {trace : List (Event Stmt Err)} (hv : schema.Valid db)
    (hrow : schema.find .refundRequests request.id db = some request)
    (h : Processable request db) :
    postgres.Sure Refunding (dispatch request) (fun r c' _ => r = .ok () ∧ c'.stack = [])
      ⟨[], trace⟩ db := by
  unfold Processable at h
  unfold dispatch
  cases htype : request.type with
  | CREDITS =>
      rw [htype] at h
      refine Engine.sure_bind ((CreditsService.sure_grantCredits hv (by simp [FreeOf]) h.1 h.2).mono
        fun r c' db' hr => ?_)
      obtain ⟨a, rfl, hstack, -⟩ := hr
      exact ⟨rfl, hstack⟩
  | PAYMENT =>
      rw [htype] at h
      simp only
      unfold processPaymentRefund
      by_cases hpaid : IsPaid request
      · rw [if_pos (Option.isSome_iff_ne_none.mpr hpaid)]
        exact ⟨rfl, rfl⟩
      · obtain ⟨hgateway, htxn, hreversible⟩ := h.resolve_left hpaid
        rw [if_neg fun hsome => hpaid (Option.isSome_iff_ne_none.mp hsome)]
        obtain ⟨gateway, hgateway⟩ := Option.ne_none_iff_exists'.mp hgateway
        obtain ⟨txn, htxn⟩ := Option.ne_none_iff_exists'.mp htxn
        rw [hgateway, htxn]
        refine Engine.sure_bind ((sure_refundCharge hv).mono fun r c₁ db₁ hr => ?_)
        obtain ⟨result, rfl, hamount, hstack, hv₁, hsame⟩ := hr
        obtain ⟨stack₁, trace₁⟩ := c₁
        obtain rfl : stack₁ = [] := hstack
        have hrow₁ : schema.find .refundRequests request.id db₁ = some request := by
          rw [Schema.find, hsame _ (by decide)]
          exact hrow
        refine sure_recordRefund hv₁ hrow₁ ?_
        rw [hamount]
        exact hreversible.congr fun t ht => (hsame t (by revert ht; cases t <;> decide)).symm

/-- The money of a request is moved only if what it asks for can be written. -/
theorem processable_of_dispatch {trace : List (Event Stmt Err)} (hv : schema.Valid db) :
    postgres.Sure Refunding (dispatch request) (fun r _ _ => r = .ok () → Processable request db)
      ⟨[], trace⟩ db := by
  unfold Processable dispatch
  cases request.type with
  | CREDITS =>
      have hwp : soloProtocol.wp (CreditsService.grantCredits (.str request.userId)
          (.int request.amount) .REFUND ("Refund for request " ++ request.id) (refundKey request.id)
          [("refundRequestId", .str request.id), ("source", .str "admin_approved_refund")]) _
          ⟨[], trace⟩ db := CreditsService.wp_grantCredits_grantable
      refine Engine.sure_bind ((Protocol.sure_of_wp hv .nil hwp).mono fun r c' db' hr => ?_)
      cases r with
      | ok a => exact fun _ => hr.1.2 a rfl
      | error e => exact fun h => by cases h
  | PAYMENT =>
      simp only
      unfold processPaymentRefund
      by_cases hpaid : IsPaid request
      · rw [if_pos (Option.isSome_iff_ne_none.mpr hpaid)]
        exact fun _ => .inl hpaid
      · rw [if_neg fun hsome => hpaid (Option.isSome_iff_ne_none.mp hsome)]
        cases hgateway : request.gatewayType with
        | none => exact fun h => by cases h
        | some gateway =>
            cases htxn : request.originalGatewayTransactionId.filter (· ≠ "") with
            | none => exact fun h => by cases h
            | some txn =>
                refine Engine.sure_bind ((sure_refundCharge hv).mono fun r c₁ db₁ hr => ?_)
                obtain ⟨result, rfl, hamount, hstack, hv₁, hsame⟩ := hr
                obtain ⟨stack₁, trace₁⟩ := c₁
                obtain rfl : stack₁ = [] := hstack
                refine (Protocol.sure_of_wp hv₁ .nil wp_recordRefund_reversible).mono
                  fun r c' db' hr hok => .inr ⟨fun h => (by cases h), fun h => (by cases h), ?_⟩
                have hreversible := hr.1 hok
                rw [hamount] at hreversible
                exact hreversible.congr fun t ht => hsame t (by revert ht; cases t <;> decide)

/-- Moving the money does not change the status. -/
theorem sure_dispatch_status {trace : List (Event Stmt Err)} (hv : schema.Valid db) :
    postgres.Sure W (dispatch request) (fun _ c' db' => c'.stack = [] ∧ schema.Valid db' ∧
      schema.le db db' ∧ (refundCheck request.id).status db' = (refundCheck request.id).status db)
      ⟨[], trace⟩ db := by
  let kept (db' : Data) : Prop :=
    (refundCheck request.id).status db' = (refundCheck request.id).status db
  have hwp : (Protocol.solo locking kept).wp (dispatch request) _ ⟨[], trace⟩ db :=
    Protocol.wp_only (Protocol.solo locking kept) (W := KeepsStatus) keepsStatus_of_exec
      (fun _ _ _ _ hw _ hi _ => ⟨(status_of_keepsStatus hw).trans hi, trivial⟩) (dispatch_only request)
  refine (Protocol.sure_of_wp_inv (I := kept) hv rfl .nil hwp).mono fun r c' db' hr => ?_
  obtain ⟨⟨hgrows, hframe⟩, hstatus, hv', -⟩ := hr
  exact ⟨hgrows, hv', hframe.le, hstatus⟩

end Going

/-! ## Completion -/

/-- The call has ended and processed the request, or it has failed and left the
request approved; which of the two is told by `φ`. -/
def EndsProcessed (id : String) (φ : Prop) (r : Except Err RefundRequest) (db' : Data) : Prop :=
  (φ ∧ (∃ row, r = .ok row) ∧ hasStatus id .PROCESSED db' = true) ∨
    (¬φ ∧ (∃ e, r = .error e) ∧ hasStatus id .APPROVED db' = true)

/-- A call alone processes an approved request, or leaves it approved. -/
theorem sure_processRefund {request : RefundRequest} {db : Data} (hv : schema.Valid db)
    (hfind : schema.find .refundRequests request.id db = some request)
    (happroved : request.status = .APPROVED) :
    postgres.Sure Refunding (processRefund request.id)
      (fun r _ db' => EndsProcessed request.id (Processable request db) r db') {} db := by
  have hstart : (refundCheck request.id).status db = some .APPROVED := by
    simp [refundCheck, hfind, happroved]
  refine Engine.sure_bind (Engine.sure_exec_auto fun env _ => ?_)
  rw [refundFindUnique_ok, hfind]
  simp only [happroved, ne_eq, not_true_eq_false, if_false]
  have hdispatch : postgres.Sure Refunding (dispatch request) (fun r _ _ =>
      (r = .ok () ↔ Processable request db)) ⟨[], [readEvent request.id request]⟩ db := by
    by_cases h : Processable request db
    · exact (sure_dispatch hv hfind h).mono fun r c' db' hr => ⟨fun _ => h, fun _ => hr.1⟩
    · exact (processable_of_dispatch hv).mono fun r c' db' hr => ⟨hr, fun h' => (h h').elim⟩
  refine Engine.sure_bind (Engine.sure_tryCatch ((hdispatch.and (sure_dispatch_status hv)).mono
    fun r c₁ db₁ hr => ?_))
  obtain ⟨hiff, hstack, hv₁, hle, hstatus⟩ := hr
  rw [hstart] at hstatus
  obtain ⟨row, hrow, hrowStatus⟩ := Option.map_eq_some_iff.mp hstatus
  obtain ⟨stack₁, trace₁⟩ := c₁
  obtain rfl : stack₁ = [] := hstack
  cases r with
  | ok a =>
      refine Engine.sure_exec_auto fun env _ => ?_
      obtain ⟨r, ws, hx⟩ := @refundUpdate_ok env db₁ request.id .processed row (.inl rfl) hv₁ hrow
      rw [hx]
      obtain ⟨old, hold, rfl, rfl⟩ := exec_refundUpdate hx
      refine .inl ⟨hiff.mp rfl, ⟨_, rfl⟩, hasStatus_iff.mpr ⟨(RefundPatch.processed).apply old, ?_, rfl⟩⟩
      rw [applyAll_single, find_refundPatch, hold]
      rfl
  | error e =>
      have hnot : ¬Processable request db := fun h => by cases hiff.mpr h
      refine Engine.sure_bind (Engine.sure_exec_auto fun env _ => ?_)
      cases hx : postgres.exec (.refundUpdate request.id (.failed e.message)) env db₁ with
      | error e' => exact .inr ⟨hnot, ⟨e', rfl⟩, hasStatus_iff.mpr ⟨row, hrow, hrowStatus⟩⟩
      | ok o =>
          obtain ⟨r, ws⟩ := o
          obtain ⟨old, hold, rfl, rfl⟩ := exec_refundUpdate hx
          obtain rfl : row = old := Option.some.inj (hrow.symm.trans hold)
          refine .inr ⟨hnot, ⟨e, rfl⟩,
            hasStatus_iff.mpr ⟨(RefundPatch.failed e.message).apply row, ?_, hrowStatus⟩⟩
          rw [applyAll_single, find_refundPatch, hrow]
          rfl

/-- When the gateway refunds and nothing fails, an approved request is processed
exactly when what it asks for can be written. -/
theorem processRefund_completes (db : Database) (request : RefundRequest)
    (hfind : schema.find .refundRequests request.id db.rows = some request)
    (happroved : request.status = .APPROVED) :
    postgres.Sure Refunding (processRefund request.id)
      (fun r _ db' => EndsProcessed request.id (Processable request db.rows) r db') {} db.rows :=
  sure_processRefund db.valid hfind happroved

/-- The refund of a charge on record is processed. -/
theorem fiftyCents_completes :
    postgres.Sure Refunding (processRefund fiftyCents.id)
      (fun r _ db' => EndsProcessed fiftyCents.id (Processable fiftyCents approvedCents.rows) r db') {}
      approvedCents.rows :=
  processRefund_completes approvedCents fiftyCents (by decide +kernel) rfl

/-! ## A request without a charge -/

/-- A call on some refund request. -/
inductive RefundsCall
  | create (userId : String) (data : CreateRefundRequestDto)
  | act (id : String) (call : RefundCall)

/-- The program of a call. -/
def RefundsCall.run : RefundsCall → Action RefundRequest
  | create userId data => createRefundRequest userId data
  | act id call => call.run id

/-- A user who has subscribed, and no charge on record. -/
def subscribedUser : Database :=
  .ofWrites [.insert .users ⟨"user"⟩, .insert .users ⟨LedgerService.SYSTEM_USER_ID⟩,
    .insert .subscriptions ⟨"s1", "user", .ACTIVE, .BASIC, some 0, some 1, false, none⟩] (by decide)

/-- What the user asks for. -/
def unchargedData : CreateRefundRequestDto where
  type := .PAYMENT
  amount := .int 50
  reason := "unused"
  gatewayType := some .AUTHORIZE_NET

/-- The user asks for a refund, and an admin approves it. -/
def unchargedCalls : List RefundsCall :=
  [.create "user" unchargedData, .act "r1" (.approve LedgerService.SYSTEM_USER_ID none)]

/-- The request that they leave. -/
def unchargedRequest : RefundRequest :=
  { fiftyCents with originalGatewayTransactionId := none }

/-- A request that names no charge is approved, and no call ever processes it. -/
theorem unchargedRequest_stuck :
    ∃ log db, Session postgres noFault RefundsCall.run subscribedUser.rows log db ∧
      schema.find .refundRequests "r1" db = some unchargedRequest ∧
      postgres.Sure Refunding (processRefund "r1")
        (fun _ _ db' => hasStatus "r1" .PROCESSED db' = false) {} db := by
  have hplay := Engine.session_play (E := postgres) (F := noFault) (fun _ => .go (.ordinary "r1"))
    (fun _ => trivial) RefundsCall.run unchargedCalls subscribedUser.rows
  have hfind : schema.find .refundRequests unchargedRequest.id
      (postgres.session (fun _ => .go (.ordinary "r1")) RefundsCall.run unchargedCalls
        subscribedUser.rows).2 = some unchargedRequest := by decide +kernel
  have hv := hplay.valid (D := locking) subscribedUser.valid
  refine ⟨_, _, hplay, hfind, (sure_processRefund hv hfind rfl).mono fun r c db' hr => ?_⟩
  have hnot : ∀ d, ¬Processable unchargedRequest d := fun d h =>
    (Or.resolve_left h fun hpaid : IsPaid unchargedRequest => hpaid rfl).2.1 rfl
  obtain ⟨-, -, happroved⟩ := hr.resolve_left fun h => hnot _ h.1
  obtain ⟨row, hrow, hstatus⟩ := hasStatus_iff.mp happroved
  have hrow : schema.find .refundRequests "r1" db' = some row := hrow
  rw [hasStatus, hrow, Option.any_some, hstatus]
  decide

end PaymentBilling
