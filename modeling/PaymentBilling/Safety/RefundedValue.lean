import PaymentBilling.Safety.GrantedCredits
import PaymentBilling.Safety.PaymentRefund

/-!
# Safety.RefundedValue

The value of a payment refund in the ledger and in credits.

The ledger is reversed by the amount that the gateway has refunded, while the
deduction is of the amount that was requested.
-/

namespace PaymentBilling

open Relational Transact

/-! ## The amounts -/

/-- The gateway's identifier has been written to the request. -/
def IsPaid (request : RefundRequest) : Prop := request.paymentRefundId.filter (· ≠ "") ≠ none

/-- The same amount is booked and deducted for the request: it is paid, or both
keys are known, or neither is and the gateway refunds what was requested. -/
def SameAmounts (request : RefundRequest) (refunded : Int) (db : Data) : Prop :=
  IsPaid request ∨
    (¬Unbooked (refundLedgerKey request.id) db ∧ CreditsService.Logged (refundKey request.id) db) ∨
    (Unbooked (refundLedgerKey request.id) db ∧
      CreditsService.Unlogged (refundKey request.id) db ∧ refunded = request.amount)

/-- What a refund is worth in the ledger: `n` less for the user and for revenue. -/
def LedgerLowered (user : String) (n : Int) (db db' : Data) : Prop :=
  accountBalance user .ASSET db' = accountBalance user .ASSET db - n ∧
    accountBalance LedgerService.SYSTEM_USER_ID .REVENUE db' =
      accountBalance LedgerService.SYSTEM_USER_ID .REVENUE db - n

section Amounts

variable {request : RefundRequest} {refunded : Int} {user : String} {n m : Int} {db db' : Data}

theorem LedgerLowered.unique (h : LedgerLowered user n db db') (h' : LedgerLowered user m db db') :
    n = m := by
  have hasset := h.1
  have hasset' := h'.1
  omega

/-- The entries of a refund, by their accounts. -/
def refundSlots (user : String) (refunded : Int) : List Slot :=
  [⟨LedgerService.SYSTEM_USER_ID, .REVENUE, .DEBIT, refunded⟩, ⟨user, .ASSET, .CREDIT, refunded⟩]

theorem refundTransfer_hasSlots :
    (RefundsService.refundTransfer request (.int refunded)).HasSlots
      (refundSlots request.userId refunded) := by
  intro db user₁ user₂ id₁ id₂ lines hu₁ hu₂ hacc₁ hacc₂ hlines
  obtain rfl := Js.str.inj hu₁
  obtain rfl := Js.str.inj hu₂
  exact fills_pair hlines hacc₂ hacc₁

theorem slotTotal_refundSlots (user : String) (refunded : Int) :
    slotTotal user .ASSET (refundSlots user refunded) = -refunded ∧
      slotTotal LedgerService.SYSTEM_USER_ID .REVENUE (refundSlots user refunded) = -refunded := by
  constructor <;>
    simp [refundSlots, slotTotal, Slot.change, entryChange, Bookkeeping.signed,
      LedgerService.isDebitNormal]

/-- The ledger is lowered by what the gateway has refunded, unless the key is booked. -/
theorem ledgerLowered_of_transferred {txn : LedgerTransaction} {ws : List RowWrite}
    (h : Transferred (RefundsService.refundTransfer request (.int refunded)) txn ws db)
    (hv : schema.Valid db) (hfits : locking.fitsAll ws db) :
    (¬Unbooked (refundLedgerKey request.id) db ∧
        LedgerLowered request.userId 0 db (postgres.applyAll ws db)) ∨
      (Unbooked (refundLedgerKey request.id) db ∧
        LedgerLowered request.userId refunded db (postgres.applyAll ws db)) := by
  cases h.posted hv hfits with
  | inl hknown =>
      obtain ⟨k, hk, t, ht, htk⟩ := hknown.known
      obtain rfl := Option.some.inj hk
      refine .inl ⟨fun hun => hun t ht htk, ?_, ?_⟩
      · rw [hknown.balance, Int.sub_zero]
      · rw [hknown.balance, Int.sub_zero]
  | inr hnew =>
      obtain ⟨hfresh, hposted⟩ := hnew
      have hbalance := (hposted _ refundTransfer_hasSlots).balance
      have htotal := slotTotal_refundSlots request.userId refunded
      refine .inr ⟨hfresh _ rfl, ?_, ?_⟩
      · rw [hbalance, htotal.1]
        omega
      · rw [hbalance, htotal.2]
        omega

end Amounts

/-! ## The comparison -/

section Comparison

variable {request : RefundRequest} {refunded : Int} {db db' : Data}

/-- What the gateway has refunded stays as it is. -/
theorem RefundBooked.gatewayRefunds {refundedAmount : Js}
    (h : RefundBooked request refundedAmount db db') : db' .gatewayRefunds = db .gatewayRefunds := by
  obtain ⟨db₁, txn, ws, hdeducted, -, -, htransfer, hother⟩ := h
  rw [hother .gatewayRefunds (by decide), htransfer.other (by decide), hdeducted.other (by decide)]

/-- What is booked and what is deducted, each unless its key is known. -/
theorem RefundBooked.amounts (h : RefundBooked request (.int refunded) db db') (hv : schema.Valid db)
    (hpos : 0 < request.amount) (hcovered : request.amount ≤ balanceOf request.userId db) :
    ((¬Unbooked (refundLedgerKey request.id) db ∧ LedgerLowered request.userId 0 db db') ∨
      (Unbooked (refundLedgerKey request.id) db ∧ LedgerLowered request.userId refunded db db')) ∧
    ((CreditsService.Logged (refundKey request.id) db ∧
        balanceOf request.userId db' = balanceOf request.userId db) ∨
      (CreditsService.Unlogged (refundKey request.id) db ∧
        balanceOf request.userId db' = balanceOf request.userId db - request.amount)) := by
  obtain ⟨db₁, txn, ws, hdeducted, hv₁, hfits, htransfer, hother⟩ := h
  have hkey : CreditsService.givenKey (some (refundKey request.id)) = some (refundKey request.id) :=
    CreditsService.givenKey_append (by decide)
  have hledger : ∀ user type, accountBalance user type db' =
      accountBalance user type (postgres.applyAll ws db₁) :=
    fun user type => accountBalance_of_same (hother _ (by decide))
  have hstart : ∀ user type, accountBalance user type db₁ = accountBalance user type db :=
    fun user type => accountBalance_of_same (hdeducted.other (by decide))
  have hbooked : Unbooked (refundLedgerKey request.id) db₁ ↔
      Unbooked (refundLedgerKey request.id) db := by
    rw [Unbooked, hdeducted.other (t := .ledgerTransactions) (by decide), Unbooked]
  have hcredits : balanceOf request.userId db' = balanceOf request.userId db₁ :=
    balanceOf_of_same ((hother .credits (by decide)).trans (htransfer.other (by decide)))
  constructor
  · have hlowered := ledgerLowered_of_transferred htransfer hv₁ hfits
    simp only [LedgerLowered, hstart, hbooked] at hlowered
    simp only [LedgerLowered, hledger]
    exact hlowered
  · rw [hcredits]
    by_cases hlogged : CreditsService.Logged (refundKey request.id) db
    · rw [hdeducted.of_logged hkey hlogged]
      exact .inl ⟨hlogged, rfl⟩
    · have hnew : CreditsService.Unlogged (refundKey request.id) db :=
        fun row hrow hk => hlogged ⟨row, hrow, hk⟩
      refine .inr ⟨hnew, ?_⟩
      have hbalance := hdeducted.balanceOf hv hpos fun k hk => by
        obtain rfl := Option.some.inj (hkey.symm.trans hk)
        exact hnew
      rwa [if_pos hcovered] at hbalance

/-- A payment refund that succeeds lowers the credits by as much as the ledger
exactly when the same amount is booked and deducted. -/
theorem refundedValue_agrees (db : Database) (request : RefundRequest) (refunded : Int)
    (c : LocalState) (db' : Data)
    (hends : postgres.Ends anyFault (RefundsService.processPaymentRefund request) {} db.rows
      (.ok ()) c db')
    (hflawless : Flawless c.trace)
    (hreported : ∀ row, GatewayRefunded request.id row db' → row.refundedAmount = .int refunded)
    (hpos : 0 < refunded) (hle : refunded ≤ request.amount)
    (hcovered : request.amount ≤ balanceOf request.userId db.rows) :
    LedgerLowered request.userId
        (balanceOf request.userId db.rows - balanceOf request.userId db') db.rows db' ↔
      SameAmounts request refunded db.rows := by
  cases hpaid : request.paymentRefundId.filter (· ≠ "") with
  | some gatewayRefundId =>
      have hwp : soloProtocol.wp (RefundsService.processPaymentRefund request)
          (fun _ _ db' => db' = db.rows) {} db.rows := by
        rw [RefundsService.processPaymentRefund, hpaid]
        rfl
      obtain ⟨rfl, -⟩ := soloProtocol.ends_of_wp db.valid trivial .nil hwp hends
      have hsame : SameAmounts request refunded db.rows :=
        .inl (by rw [IsPaid, hpaid]; exact Option.some_ne_none _)
      simp [LedgerLowered, hsame]
  | none =>
      have hunpaid : ¬IsPaid request := fun h => h hpaid
      obtain ⟨hq, -⟩ := soloProtocol.ends_of_wp db.valid trivial .nil
        (wp_processPaymentRefund_alone hpaid) hends
      obtain ⟨row, db₀, hsame, hv₀, hrow, hbooked⟩ := hq rfl hflawless
      have hreport : row.refundedAmount = .int refunded := by
        refine hreported row ?_
        rw [GatewayRefunded, Schema.find, hbooked.gatewayRefunds, ← Schema.find]
        exact hrow
      rw [hreport] at hbooked
      have hbalance : balanceOf request.userId db₀ = balanceOf request.userId db.rows :=
        balanceOf_of_same (hsame .credits (by decide))
      have hstart : ∀ user type, accountBalance user type db₀ = accountBalance user type db.rows :=
        fun user type => accountBalance_of_same (hsame _ (by decide))
      have hamounts := hbooked.amounts hv₀ (by omega) (by rw [hbalance]; exact hcovered)
      simp only [LedgerLowered, hstart, hbalance, Unbooked, CreditsService.Logged,
        CreditsService.Unlogged, hsame .ledgerTransactions (by decide),
        hsame .creditTransactions (by decide)] at hamounts
      obtain ⟨hledger, hcredits⟩ := hamounts
      rw [SameAmounts]
      constructor
      · intro hagree
        refine .inr ?_
        cases hledger with
        | inl hknown =>
            cases hcredits with
            | inl hlogged => exact .inl ⟨hknown.1, hlogged.1⟩
            | inr hnew =>
                have := LedgerLowered.unique hagree hknown.2
                omega
        | inr hbook =>
            have hunique := LedgerLowered.unique hagree hbook.2
            cases hcredits with
            | inl hlogged => omega
            | inr hnew => exact .inr ⟨hbook.1, hnew.1, by omega⟩
      · intro hagree
        rcases hagree with hpaid | ⟨hknown, hlogged⟩ | ⟨hunbooked, hnew, hamount⟩
        · exact (hunpaid hpaid).elim
        · obtain hzero := hledger.resolve_right fun h => hknown h.1
          obtain ⟨row, hrow, hk⟩ := hlogged
          obtain hsame := hcredits.resolve_right fun h => h.1 row hrow hk
          rw [hsame.2, Int.sub_self]
          exact hzero.2
        · obtain hbook := hledger.resolve_left fun h => h.1 hunbooked
          obtain hless := hcredits.resolve_left fun h => h.1.elim fun row hrow => hnew row hrow.1 hrow.2
          have hvalue : balanceOf request.userId db.rows - balanceOf request.userId db' = refunded := by
            omega
          rw [hvalue]
          exact hbook.2

end Comparison

/-! ## A partial refund -/

/-- A gateway that refunds this many cents. -/
def refundsOnly (cents : Int) : Env :=
  { Env.ordinary "a" with refund := fun _ params => ⟨"gateway_" ++ params.idempotencyKey, .int cents⟩ }

/-- The request for fifty cents, when the gateway refunds this many. -/
def playPartial (cents : Int) : Except Err Unit × LocalState × Data :=
  postgres.solo (fun _ => .go (refundsOnly cents))
    (RefundsService.processPaymentRefund fiftyCents) {} approvedCents.rows

/-- The one row of the gateway's books tells what was refunded. -/
theorem reported_of_rows {cents : Int} {db : Data}
    (h : ∀ row ∈ db .gatewayRefunds, row.refundedAmount = .int cents) (row : GatewayRefund)
    (hrow : GatewayRefunded "r1" row db) : row.refundedAmount = .int cents :=
  h row (Schema.mem_of_find hrow)

/-- A full refund takes fifty from both. -/
theorem fullRefund_agrees :
    balanceOf fiftyCents.userId (playPartial 50).2.2 = 30 ∧
      (LedgerLowered fiftyCents.userId
          (balanceOf fiftyCents.userId approvedCents.rows -
            balanceOf fiftyCents.userId (playPartial 50).2.2)
          approvedCents.rows (playPartial 50).2.2 ↔ SameAmounts fiftyCents 50 approvedCents.rows) := by
  have hok : (playPartial 50).1 = .ok () := by decide +kernel
  have hflawless : Flawless (playPartial 50).2.1.trace := by decide +kernel
  have hreported : ∀ row ∈ (playPartial 50).2.2 .gatewayRefunds, row.refundedAmount = .int 50 := by
    decide +kernel
  have hcovered : fiftyCents.amount ≤ balanceOf fiftyCents.userId approvedCents.rows := by
    decide +kernel
  have hbalance : balanceOf fiftyCents.userId (playPartial 50).2.2 = 30 := by decide +kernel
  have hpos : (0 : Int) < 50 := by decide
  have hle : (50 : Int) ≤ fiftyCents.amount := Int.le_refl 50
  have hagree := refundedValue_agrees approvedCents fiftyCents 50 (playPartial 50).2.1
    (playPartial 50).2.2 (ends_solo_env hok) hflawless (reported_of_rows hreported) hpos hle hcovered
  exact ⟨hbalance, hagree⟩

/-- When the gateway refunds thirty cents of the fifty, thirty are booked and
fifty are deducted. -/
theorem partialRefund_differs :
    postgres.Ends anyFault (RefundsService.processPaymentRefund fiftyCents) {} approvedCents.rows
        (.ok ()) (playPartial 30).2.1 (playPartial 30).2.2 ∧
      (∀ row, GatewayRefunded "r1" row (playPartial 30).2.2 → row.refundedAmount = .int 30) ∧
      fiftyCents.amount ≤ balanceOf "user" approvedCents.rows ∧
      balanceOf "user" approvedCents.rows - balanceOf "user" (playPartial 30).2.2 = 50 ∧
      LedgerLowered "user" 30 approvedCents.rows (playPartial 30).2.2 := by
  have hok : (playPartial 30).1 = .ok () := by decide +kernel
  have hreported : ∀ row ∈ (playPartial 30).2.2 .gatewayRefunds, row.refundedAmount = .int 30 := by
    decide +kernel
  have hledger : LedgerLowered "user" 30 approvedCents.rows (playPartial 30).2.2 := by
    unfold LedgerLowered
    decide +kernel
  exact ⟨ends_solo_env hok, reported_of_rows hreported, by decide +kernel, by decide +kernel, hledger⟩

end PaymentBilling
