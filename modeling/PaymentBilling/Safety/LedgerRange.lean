import PaymentBilling.Safety.RefundCompletion
import PaymentBilling.Spec.Increments

/-!
# Safety.LedgerRange

Balances that stay inside their columns while payments are refunded and charges
are charged back.

Both take an amount off revenue and off the asset of a user, once for each key,
and nothing else in such a run moves a balance.  So what is still to be taken
tells how far the balances can fall.
-/

namespace PaymentBilling

open Relational Transact

/-! ## Withdrawals -/

/-- An amount that is taken off the ledger under a key. -/
structure Withdrawal where
  key : String
  user : String
  amount : Int
  pos : 0 < amount

/-- The entries of a withdrawal, by their accounts. -/
def Withdrawal.slots (r : Withdrawal) : List Slot := refundSlots r.user r.amount

/-- Withdrawals that may still be booked together: each has a key of its own,
which is not taken. -/
structure Outstanding (R : Withdrawal → Prop) (C : List Withdrawal) (db : Data) : Prop where
  among : ∀ r ∈ C, R r
  distinct : (C.map (·.key)).Nodup
  unbooked : ∀ r ∈ C, ¬KeyTaken r.key db

/-- No account would fall below its column if all that may still be booked was. -/
def Covered (R : Withdrawal → Prop) (db : Data) : Prop :=
  ∀ C, Outstanding R C db → ∀ user type,
    -2147483648 ≤ accountBalance user type db + slotTotal user type (C.flatMap Withdrawal.slots)

/-- A transfer that takes an amount off the asset of a user and off revenue. -/
def takingTransfer (userId : Js) (key : String) (amount : Js) : Transfer where
  firstUser := userId
  firstType := .ASSET
  secondUser := .str LedgerService.SYSTEM_USER_ID
  secondType := .REVENUE
  key := some key
  entries a b := pairEntries b a amount

section Withdrawals

variable {R : Withdrawal → Prop} {C : List Withdrawal} {db db' : Data} {r : Withdrawal}
  {ws : List RowWrite} {userId amount : Js} {key : String} {txn : LedgerTransaction}

theorem Outstanding.nil : Outstanding R [] db :=
  ⟨List.forall_mem_nil _, .nil, List.forall_mem_nil _⟩

/-- A withdrawal under a key that none of the others has. -/
theorem Outstanding.cons (h : Outstanding R C db) (hr : R r) (hnew : ¬KeyTaken r.key db)
    (hne : ∀ r' ∈ C, r'.key ≠ r.key) : Outstanding R (r :: C) db where
  among := List.forall_mem_cons.mpr ⟨hr, h.among⟩
  distinct := by
    refine List.nodup_cons.mpr ⟨fun hin => ?_, h.distinct⟩
    obtain ⟨r', hr', he⟩ := List.mem_map.mp hin
    exact hne r' hr' he
  unbooked := List.forall_mem_cons.mpr ⟨hnew, h.unbooked⟩

/-- What is outstanding later was outstanding before. -/
theorem Outstanding.before (h : Outstanding R C db') (hv : schema.Valid db) (hv' : schema.Valid db')
    (hle : schema.le db db') : Outstanding R C db :=
  ⟨h.among, h.distinct, fun r hr htaken => h.unbooked r hr (htaken.mono hv hv' hle)⟩

theorem Covered.congr (h : Covered R db) (haccounts : db' .ledgerAccounts = db .ledgerAccounts)
    (htxns : db' .ledgerTransactions = db .ledgerTransactions) : Covered R db' := by
  intro C hC user type
  have hC' : Outstanding R C db := by
    refine ⟨hC.among, hC.distinct, fun r hr htaken => hC.unbooked r hr ?_⟩
    rw [KeyTaken, Schema.findBy, htxns]
    exact htaken
  rw [accountBalance_of_same haccounts]
  exact h C hC' user type

/-- A withdrawal lowers an account by its amount at most. -/
theorem Withdrawal.slotTotal_ge (r : Withdrawal) (user : String) (type : LedgerAccountType) :
    -r.amount ≤ slotTotal user type r.slots := by
  have hpos := r.pos
  have hrevenue : Slot.change ⟨LedgerService.SYSTEM_USER_ID, .REVENUE, .DEBIT, r.amount⟩ = -r.amount :=
    rfl
  have hasset : Slot.change ⟨r.user, .ASSET, .CREDIT, r.amount⟩ = -r.amount := rfl
  have hnil : slotTotal user type [] = 0 := rfl
  rw [Withdrawal.slots, refundSlots, slotTotal_cons, slotTotal_cons, hrevenue, hasset, hnil]
  -- the two entries are on accounts of different types
  by_cases htype : type = .REVENUE
  · subst htype
    simp only [reduceCtorEq, and_false, if_false]
    split <;> omega
  · simp only [Ne.symm htype, and_false, if_false]
    split <;> omega

/-- Withdrawals under few keys, none of them large, are covered. -/
theorem covered_of_keys {keys : List String} {n : Int} (hn : 0 ≤ n)
    (hR : ∀ r, R r → r.key ∈ keys ∧ r.amount ≤ n)
    (hfit : ∀ user type, -2147483648 ≤ accountBalance user type db - n * keys.length) :
    Covered R db := by
  intro C hC user type
  have hlength : (C.map (·.key)).length ≤ keys.length := by
    refine (List.subperm_of_subset hC.distinct fun k hk => ?_).length_le
    obtain ⟨r, hr, rfl⟩ := List.mem_map.mp hk
    exact (hR r (hC.among r hr)).1
  have htotal : ∀ C : List Withdrawal, (∀ r ∈ C, R r) →
      -(n * C.length) ≤ slotTotal user type (C.flatMap Withdrawal.slots) := by
    intro C hamong
    induction C with
    | nil =>
        rw [List.length_nil, Int.natCast_zero, Int.mul_zero]
        exact Int.le_refl 0
    | cons r C ih =>
        rw [List.forall_mem_cons] at hamong
        have hrest := ih hamong.2
        have hfirst := r.slotTotal_ge user type
        have hamount := (hR r hamong.1).2
        rw [List.flatMap_cons, slotTotal_append, List.length_cons, Int.natCast_succ, Int.mul_add,
          Int.mul_one]
        omega
  have hall := htotal C hC.among
  have hfits := hfit user type
  rw [List.length_map] at hlength
  have hmul : n * C.length ≤ n * keys.length := Int.mul_le_mul_of_nonneg_left (by omega) hn
  omega

/-- There is room for a withdrawal that may still be booked. -/
theorem Covered.room (h : Covered R db) (hv : schema.Valid db) (hr : R r)
    (hnew : ¬KeyTaken r.key db) :
    HasRoom LedgerService.SYSTEM_USER_ID .REVENUE .DEBIT r.amount db ∧
      HasRoom r.user .ASSET .CREDIT r.amount db := by
  have hC : Outstanding R [r] db := Outstanding.nil.cons hr hnew (List.forall_mem_nil _)
  have hpos := r.pos
  have htotal := slotTotal_refundSlots r.user r.amount
  have hslots : [r].flatMap Withdrawal.slots = refundSlots r.user r.amount := List.append_nil _
  constructor
  · have hlow := h [r] hC LedgerService.SYSTEM_USER_ID .REVENUE
    have hhigh := accountBalance_inRange hv LedgerService.SYSTEM_USER_ID .REVENUE
    rw [hslots, htotal.2] at hlow
    have hchange : entryChange .REVENUE .DEBIT r.amount = -r.amount := rfl
    simp only [HasRoom, hchange, inInt32, decide_eq_true_eq] at hhigh ⊢
    omega
  · have hlow := h [r] hC r.user .ASSET
    have hhigh := accountBalance_inRange hv r.user .ASSET
    rw [hslots, htotal.1] at hlow
    have hchange : entryChange .ASSET .CREDIT r.amount = -r.amount := rfl
    simp only [HasRoom, hchange, inInt32, decide_eq_true_eq] at hhigh ⊢
    omega

/-- A transfer that takes an amount off books a withdrawal under a key that was
not taken, or leaves every balance as it is. -/
theorem taken_of_transferred (h : Transferred (takingTransfer userId key amount) txn ws db)
    (hv : schema.Valid db) (hfits : locking.fitsAll ws db) :
    (∀ user type, accountBalance user type (postgres.applyAll ws db) = accountBalance user type db) ∨
      ∃ r : Withdrawal, r.key = key ∧ userId = .str r.user ∧ amount = .int r.amount ∧
        ¬KeyTaken key db ∧ KeyTaken key (postgres.applyAll ws db) ∧
        ∀ user type, accountBalance user type (postgres.applyAll ws db) =
          accountBalance user type db + slotTotal user type r.slots := by
  have hv' : schema.Valid (postgres.applyAll ws db) := locking.valid_applyAll hfits hv
  cases h.posted hv hfits with
  | inl hunposted => exact .inl hunposted.balance
  | inr hposted =>
      obtain ⟨hfresh, hposted⟩ := hposted
      have hnew : ¬KeyTaken key db := by
        rintro ⟨t, ht⟩
        have hkey := Schema.key_of_findBy ht
        exact hfresh key rfl t (Schema.mem_of_findBy ht) (by simpa [schema] using hkey)
      obtain ⟨user, _, _, _, opened, recorded, huser, -, rfl, hopens, -, -, hrecord⟩ := h.split
      rcases hrecord with ⟨rfl, -, -⟩ | ⟨lines, hp, -, hlines⟩
      · rw [List.append_nil] at hfits ⊢
        exact .inl (hopens.accountBalance hfits)
      · cases hlines with
        | @cons _ line _ lines hline hlines =>
        have hamount : amount = .int line.entry.amount := hline.amount
        have hpos : 0 < line.entry.amount := hp.balanced.positive _ List.mem_cons_self
        have huser : userId = .str user := huser
        have hslots : (takingTransfer userId key amount).HasSlots (refundSlots user line.entry.amount) := by
          intro db user₁ user₂ id₁ id₂ lines hu₁ hu₂ hacc₁ hacc₂ hlines
          obtain rfl := Js.str.inj (huser.symm.trans hu₁)
          obtain rfl := Js.str.inj hu₂
          rw [hamount] at hlines
          exact fills_pair hlines hacc₂ hacc₁
        have hnow := hposted _ hslots
        refine .inr ⟨⟨key, user, line.entry.amount, hpos⟩, rfl, huser, hamount, hnew, ⟨txn, ?_⟩,
          hnow.balance⟩
        refine hv'.findBy_of_mem ?_ (by simp [schema, hnow.key_eq, takingTransfer])
        rw [hnow.transactions]
        exact List.mem_append_right _ List.mem_cons_self

/-- A transfer that books a withdrawal which was counted on leaves the rest covered. -/
theorem Covered.taken (h : Covered R db)
    (hx : Transferred (takingTransfer userId key amount) txn ws db) (hv : schema.Valid db)
    (hfits : locking.fitsAll ws db)
    (hR : ∀ r : Withdrawal, r.key = key → userId = .str r.user → amount = .int r.amount → R r) :
    Covered R (postgres.applyAll ws db) := by
  intro C hC user type
  have hv' : schema.Valid (postgres.applyAll ws db) := locking.valid_applyAll hfits hv
  have hbefore := hC.before hv hv' (locking.le_applyAll ws db)
  cases taken_of_transferred hx hv hfits with
  | inl hsame =>
      rw [hsame]
      exact h C hbefore user type
  | inr htaken =>
      obtain ⟨r, rfl, huser, hamount, hnew, hnow, hbalance⟩ := htaken
      -- the others have other keys
      have hcons : Outstanding R (r :: C) db := by
        refine hbefore.cons (hR r rfl huser hamount) hnew fun r' hr' he => hC.unbooked r' hr' ?_
        rw [he]
        exact hnow
      have hall := h (r :: C) hcons user type
      rw [List.flatMap_cons, slotTotal_append] at hall
      rw [hbalance]
      omega

end Withdrawals

/-! ## Calls -/

/-- A call in a run of refunds and chargebacks; everything else is off the ledger. -/
inductive ReversalCall
  | refund (id : String)
  | chargeback (config : AuthorizeNetConfig) (req : AuthorizeNetRequest)
      (hasType : req.body.type = .str "chargeback.received")
  | other (program : Action Unit) (offLedger : Only OffLedger program 0)

/-- The program of a call, without its answer. -/
def ReversalCall.run : ReversalCall → Action Unit
  | refund id => RefundsService.processRefund id >>= fun _ => pure ()
  | chargeback config req _ => AuthorizeNetWebhookController.handleWebhook config req >>= fun _ => pure ()
  | other program _ => program

/-- The withdrawals that calls can make when `db` is reached: what the gateway has
refunded for a request, and what is charged back. -/
def Planned {ι : Type} (calls : ι → ReversalCall) (db : Data) (r : Withdrawal) : Prop :=
  (∃ request gateway, schema.find .refundRequests request.id db = some request ∧
      GatewayRefunded request.id gateway db ∧ gateway.refundedAmount = .int r.amount ∧
      r.key = refundLedgerKey request.id ∧ r.user = request.userId) ∨
    ∃ i config req hasType data, calls i = .chargeback config req hasType ∧
      req.body.data = some data ∧ r.key = reversalKey data.transactionId.text ∧
      data.userId = .str r.user ∧ data.amount = .int r.amount

/-- A run that ends in `final` covers its withdrawals. -/
def CoveredUntil (R : Withdrawal → Prop) (final db : Data) : Prop := schema.le db final → Covered R db

/-- Clients that share what is covered. -/
abbrev rangeProtocol (R : Withdrawal → Prop) (final : Data) :
    Protocol locking (CoveredUntil R final) := .sharing locking (CoveredUntil R final)

section Calls

variable {R : Withdrawal → Prop} {final db db' : Data} {c : LocalState} {ws : List RowWrite}
  {trace : List (Event Stmt Err)}

/-- Changes of other tables. -/
theorem CoveredUntil.other (h : CoveredUntil R final db) (hw : ∀ w ∈ ws, w.table ∉ ledgerTables) :
    CoveredUntil R final (postgres.applyAll ws db) := by
  intro hle
  have hsame : ∀ t ∈ ledgerTables, postgres.applyAll ws db t = db t := fun t ht =>
    applyAll_other fun w hin he => hw w hin (he ▸ ht)
  exact (h (schema.le_trans (locking.le_applyAll ws db) hle)).congr (hsame _ (by decide))
    (hsame _ (by decide))

/-- The commit of a transfer. -/
theorem CoveredUntil.taken {userId amount : Js} {key : String} {txn : LedgerTransaction}
    (h : CoveredUntil R final db) (hx : Transferred (takingTransfer userId key amount) txn ws db)
    (hv : schema.Valid db) (hfits : locking.fitsAll ws db)
    (hR : schema.le db final → ∀ r : Withdrawal, r.key = key → userId = .str r.user →
      amount = .int r.amount → R r) : CoveredUntil R final (postgres.applyAll ws db) := by
  intro hle
  have hle := schema.le_trans (locking.le_applyAll ws db) hle
  exact (h hle).taken hx hv hfits (hR hle)

/-- A program off the ledger. -/
theorem wp_offLedger {α : Type} {p : Action α} (hp : Only OffLedger p 0) :
    (rangeProtocol R final).wp p (fun _ _ _ => True) c db :=
  Protocol.wp_mono _ (fun _ _ _ _ => trivial) (Protocol.wp_only _ offLedger_of_exec
    (fun _ _ _ _ hw _ hi _ => ⟨hi.other hw, trivial⟩) hp)

namespace AuthorizeNetWebhookController

/-- A chargeback takes off what was counted on. -/
theorem wp_chargeback_covered {config : AuthorizeNetConfig} {req : AuthorizeNetRequest}
    (htype : req.body.type = .str "chargeback.received")
    (hR : ∀ data, req.body.data = some data → ∀ r : Withdrawal,
      r.key = reversalKey data.transactionId.text → data.userId = .str r.user →
        data.amount = .int r.amount → R r) :
    (rangeProtocol R final).wp (handleWebhook config req) (fun _ _ _ => True) ⟨[], trace⟩ db := by
  cases hdata : req.body.data with
  | none =>
      refine wp_offLedger (handleWebhook_only config req (by simp [OffLedger, Stmt.writes])
        (by simp [OffLedger, Stmt.writes, ledgerTables]) ?_)
      rw [htype, hdata]
      exact only_throw _
  | some data =>
      refine wp_handleChargeback _ htype hdata (fun _ _ _ _ hw _ hi _ => ⟨hi.other fun w hin => ?_, trivial⟩)
        fun ws₁ ws₂ c db _ hs hfits hrecord hx => ⟨?_, trivial⟩
      · have hcredit := hw w hin
        revert hcredit
        cases w.table <;> decide
      · obtain ⟨d, ws₃, rest, rfl, ⟨-, hopened⟩, hrest⟩ := hx
        have hbefore : ∀ w ∈ ws₁ ++ ws₃, w.table ∉ ledgerTables := by
          intro w hin
          rcases List.mem_append.mp hin with hin | hin
          · rw [hrecord w hin]
            decide
          · rcases hopened with ⟨rfl, -⟩ | ⟨rfl, -⟩
            · cases hin
            · rw [List.mem_singleton.mp hin]
              show Table.disputes ∉ ledgerTables
              decide
        rw [← List.append_assoc, locking.fitsAll_append] at hfits
        rw [← List.append_assoc, postgres.applyAll_append]
        rw [← postgres.applyAll_append] at hrest
        have hi₁ := hs.inv.other hbefore
        have hv₁ : schema.Valid (postgres.applyAll (ws₁ ++ ws₃) db) :=
          locking.valid_applyAll hfits.1 hs.valid
        beta_reduce at hrest
        split at hrest
        · obtain ⟨-, rfl⟩ := hrest
          exact hi₁
        · obtain ⟨response, ws₄, _, rfl, htransfer, _, ws₅, ws₆, rfl, rfl, hcredits⟩ := hrest
          rw [postgres.applyAll_append]
          refine CoveredUntil.other ?_ fun w hin => ?_
          · exact hi₁.taken (transferred_of_rel htransfer) hv₁ (locking.fitsAll_append.mp hfits.2).1
              fun _ => hR data hdata
          · rcases List.mem_append.mp hin with hin | hin
            · rw [List.mem_singleton.mp hin]
              show Table.disputes ∉ ledgerTables
              decide
            · have hcredit : w.table ∈ creditTables := hcredits w hin
              revert hcredit
              cases w.table <;> decide

end AuthorizeNetWebhookController

namespace RefundsService

/-- The transaction of a refund takes off what was counted on. -/
theorem wp_recordRefund_covered {request : RefundRequest} {result : RefundResult}
    (hR : ∀ db', schema.le db db' → schema.le db' final → ∀ r : Withdrawal,
      r.key = refundLedgerKey request.id → r.user = request.userId →
        result.refundedAmount = .int r.amount → R r) :
    (rangeProtocol R final).wp (recordRefund request result) (fun _ _ _ => True) ⟨[], trace⟩ db := by
  refine Protocol.wp_transaction_of_does (Protocol.does_bind (does_recordRows request result)
    fun _ => Protocol.does_only (W := fun w => w.table ∉ ledgerTables) offLedger_of_exec
      (fun _ _ _ _ hw _ hi _ => ⟨hi.other hw, trivial⟩) (deductRefunded_offLedger request))
    (fun _ _ _ _ => trivial) fun _ t c' db' _ _ hle hs hfits hx => ⟨⟨?_, trivial⟩, trivial⟩
  obtain ⟨_, _, ws₃, hws, ⟨response, ws₁, ws₂, rfl, htransfer, rfl⟩, hcredits⟩ := hx
  rw [hws, List.append_assoc] at hfits
  rw [Engine.view, hws, List.append_assoc, postgres.applyAll_append]
  refine CoveredUntil.other ?_ fun w hin => ?_
  · refine hs.inv.taken (transferred_of_rel htransfer) hs.valid (locking.fitsAll_append.mp hfits).1
      fun hfinal r hkey huser hamount => ?_
    exact hR db' hle hfinal r hkey (Js.str.inj huser).symm hamount
  · rcases List.mem_append.mp hin with hin | hin
    · rw [List.mem_singleton.mp hin]
      show Table.refundRequests ∉ ledgerTables
      decide
    · exact hcredits w hin

/-- What the gateway has refunded for a request is counted on. -/
def Counted (R : Withdrawal → Prop) (db : Data) : Prop :=
  ∀ request gateway, schema.find .refundRequests request.id db = some request →
    GatewayRefunded request.id gateway db → ∀ r : Withdrawal,
      r.key = refundLedgerKey request.id → r.user = request.userId →
        gateway.refundedAmount = .int r.amount → R r

/-- The request as it was read before. -/
theorem Counted.refunded {request : RefundRequest} {gateway : GatewayRefund} {db₁ : Data}
    (h : Counted R final) (hrequest : schema.find .refundRequests request.id db = some request)
    (hle : schema.le db final) (hgateway : GatewayRefunded request.id gateway db₁)
    (hle₁ : schema.le db₁ final) (r : Withdrawal) (hkey : r.key = refundLedgerKey request.id)
    (huser : r.user = request.userId) (hamount : gateway.refundedAmount = .int r.amount) : R r := by
  obtain ⟨request', hrequest', hsame⟩ := request_of_le hle hrequest
  have hid : request'.id = request.id := hsame.id
  rw [← hid] at hrequest' hgateway hkey
  rw [← hsame.userId] at huser
  exact h request' gateway hrequest' (hgateway.mono hle₁) r hkey huser hamount

/-- A gateway that has refunded has it on record. -/
theorem gatewayRefunded_of_exec {id : String} {gatewayType : PaymentGateway} {txn : String}
    {amount : Int} {env : Env} {answer : Except String RefundResult}
    (h : postgres.exec (.refundCharge gatewayType ⟨txn, amount, refundKey id⟩) env db =
      .ok (answer, ws)) : ∃ gateway, answer = gatewayAnswer env.lost gateway ∧
      GatewayRefunded id gateway (postgres.applyAll ws db) := by
  obtain ⟨gateway, rfl, hid, hrow⟩ := exec_refundCharge h
  refine ⟨gateway, rfl, ?_⟩
  rcases hrow with ⟨hfind, rfl⟩ | ⟨hnone, rfl⟩
  · exact hfind
  · have hid : schema.id (t := .gatewayRefunds) gateway = refundKey id := hid
    rw [GatewayRefunded, applyAll_single, Schema.find_insert, hnone, Option.none_or, if_pos hid]

/-- A refund takes off what was counted on. -/
theorem wp_processRefund_covered {id : String} (hR : Counted R final) :
    (rangeProtocol R final).wp (processRefund id) (fun _ _ _ => True) ⟨[], trace⟩ db := by
  have hupdate : ∀ (c : LocalState) db p, CoveredUntil R final db → (rangeProtocol R final).Keeps c db
      (schema.apply (.update .refundRequests id p) db) := by
    intro c db p hi
    rw [← applyAll_single]
    refine ⟨hi.other fun w hw => ?_, trivial⟩
    rw [List.mem_singleton.mp hw]
    show Table.refundRequests ∉ ledgerTables
    decide
  refine wp_processRefund _ (G := fun _ _ _ => True) (fun _ _ _ => trivial)
    (fun seen db₁ hs₁ hseen _ => ?_) (fun _ _ _ _ _ _ _ hs => hupdate _ _ _ hs.inv)
    fun _ _ _ _ _ _ _ _ _ hs => ⟨hupdate _ _ _ hs.inv, trivial⟩
  obtain rfl : seen.id = id := Schema.id_of_find hseen
  refine Protocol.wp_mono _ (Q := fun _ _ _ => True) (fun _ _ _ _ _ _ => trivial) ?_
  unfold dispatch
  cases seen.type with
  | CREDITS => exact wp_offLedger (only_bind (grantCredits_offLedger ..) fun _ => only_pure _)
  | PAYMENT =>
      simp only
      unfold processPaymentRefund
      split
      · trivial
      split
      · trivial
      split
      · trivial
      rw [Protocol.wp_bind]
      unfold refundCharge
      rw [Protocol.wp_bind]
      refine Protocol.wp_exec_auto _ (fun _ _ _ => trivial) fun env answer ws db₂ hs₂ hx => ?_
      obtain ⟨gateway, rfl, hgateway⟩ := gatewayRefunded_of_exec hx
      refine ⟨⟨hs₂.inv.other fun w hw => ?_, trivial⟩, ?_⟩
      · rw [← Option.some.inj (table_of_exec hx w hw)]
        decide
      cases env.lost with
      | some message => trivial
      | none =>
          refine wp_recordRefund_covered fun db' hle hfinal r hkey huser hamount => ?_
          have hle₁ : schema.le db₁ final :=
            schema.le_trans (schema.le_trans hs₂.le (locking.le_applyAll ws db₂))
              (schema.le_trans hle hfinal)
          exact hR.refunded hseen hle₁ hgateway (schema.le_trans hle hfinal) r hkey huser hamount

end RefundsService

/-! ## No balance overflows -/

/-- The committed states of a run that ends in `final`. -/
def Before (R : Withdrawal → Prop) (final db : Data) : Prop := schema.le db final ∧ Covered R db

/-- A call increments balances that have room. -/
abbrev HasRoomAlways (R : Withdrawal → Prop) (final : Data) {α : Type} (p : Action α) : Prop :=
  locking.Avoids Increments IsRange (Before R final) p (fun _ _ => True) []

theorem hasRoomAlways_offLedger {α : Type} {p : Action α} (hp : Only OffLedger p 0) :
    HasRoomAlways R final p :=
  Discipline.avoids_only not_increments_of_offLedger hp fun _ _ => trivial

/-- What was counted on has room. -/
theorem ready_before {userId amount : Js} {key : String}
    (hR : ∀ r : Withdrawal, r.key = key → userId = .str r.user → amount = .int r.amount → R r) :
    LedgerService.Ready userId amount key (Before R final) :=
  fun _ hv hz hnew user n huser hamount hpos =>
    hz.2.room (r := ⟨key, user, n, hpos⟩) hv (hR _ rfl huser hamount) hnew

namespace RefundsService

theorem roomy_recordRows {request : RefundRequest} {result : RefundResult}
    (hR : ∀ r : Withdrawal, r.key = refundLedgerKey request.id → r.user = request.userId →
      result.refundedAmount = .int r.amount → R r) :
    Roomy (Before R final) (recordRows request result) (fun _ _ => True) (Before R final) := by
  refine LedgerService.roomy_transfer (refundLedgerKey_ne request.id)
    (ready_before fun r hkey huser hamount => ?_) fun response Z' => ?_
  · exact hR r hkey (Js.str.inj huser).symm hamount
  · exact (Discipline.avoidsIn_other (Q := fun _ _ => True) id fun _ _ _ _ _ _ _ => trivial).bind
      fun _ _ _ => Discipline.avoidsIn_pure trivial

theorem hasRoomAlways_processRefund {id : String} (hR : Counted R final) :
    HasRoomAlways R final (processRefund id) := by
  have hupdate : ∀ data, Only OffLedger (query (.refundUpdate id data)) 0 := fun data =>
    offLedger_query (by simp [OffLedger, Stmt.writes, ledgerTables])
  unfold processRefund
  refine Discipline.avoids_bind (Discipline.avoids_exec_auto (fun h => h) (fun _ => trivial)
    fun env v found ws hv hz hx hz' => ?_)
  obtain ⟨rfl, hseen⟩ := exec_refundFindUnique hx
  cases found with
  | none => trivial
  | some seen =>
      obtain rfl : seen.id = id := Schema.id_of_find hseen.symm
      simp only
      split
      · trivial
      have hhandler : ∀ e : Err, Only OffLedger
          (query (.refundUpdate seen.id (.failed e.message)) >>= fun _ => (throw e : Action Unit)) 0 :=
        fun e => only_bind (hupdate _) fun _ => only_throw e
      suffices hdispatch : HasRoomAlways R final (dispatch seen) from
        (hdispatch.tryCatch_only not_increments_of_offLedger hhandler).bind_only
          not_increments_of_offLedger fun _ => hupdate _
      unfold dispatch
      cases seen.type with
      | CREDITS =>
          exact hasRoomAlways_offLedger (only_bind (grantCredits_offLedger ..) fun _ => only_pure _)
      | PAYMENT =>
          simp only
          unfold processPaymentRefund
          split
          · trivial
          split
          · trivial
          split
          · trivial
          refine Discipline.avoids_bind (Discipline.avoids_bind (Discipline.avoids_exec_auto id
            (fun _ => trivial) fun env v₁ answer ws hv₁ hz₁ hx hz₂ => ?_))
          obtain ⟨gateway, rfl, hgateway⟩ := gatewayRefunded_of_exec hx
          cases env.lost with
          | some message => trivial
          | none =>
              exact (roomy_recordRows (hR.refunded hseen.symm hz.1 hgateway hz₂.1)).transaction
                not_increments_of_offLedger fun _ => deductRefunded_offLedger seen

end RefundsService

namespace AuthorizeNetWebhookController

theorem roomy_delivery {event : AuthorizeNetEvent} {data : AuthorizeNetData}
    (hR : ∀ r : Withdrawal, r.key = reversalKey data.transactionId.text → data.userId = .str r.user →
      data.amount = .int r.amount → R r) :
    Roomy (Before R final) (query (.processedWebhookCreate event.eventId "authorize_net" event.type)
      >>= fun _ => openReversal data) (fun _ _ => True) (Before R final) := by
  refine (LedgerService.roomy_offLedger (by simp [OffLedger, Stmt.writes, ledgerTables])
    (ready_before hR)).bind fun _ Z₁ h₁ => ?_
  have hcreate : Roomy (Before R final) (DisputesService.createDispute
      { userId := data.userId, gateway := .AUTHORIZE_NET
        gatewayDisputeId := "an_dispute_" ++ data.transactionId.text
        originalTransactionId := data.transactionId, amount := data.amount
        reason := data.reason.or (.str "Chargeback received") })
      (fun _ Z' => LedgerService.Ready data.userId data.amount (reversalKey data.transactionId.text) Z')
      Z₁ := by
    refine (LedgerService.roomy_offLedger (by simp [OffLedger, Stmt.writes]) h₁).bind
      fun found Z₂ h₂ => ?_
    cases found with
    | some existing => exact Discipline.avoidsIn_pure h₂
    | none => exact LedgerService.roomy_offLedger (by simp [OffLedger, Stmt.writes, ledgerTables]) h₂
  refine hcreate.bind fun dispute Z₂ h₂ => ?_
  split
  · exact Discipline.avoidsIn_pure trivial
  · refine (LedgerService.roomy_transfer (reversalKey_ne _) h₂ fun response Z' => ?_).bind
      fun _ _ _ => Discipline.avoidsIn_pure trivial
    exact (Discipline.avoidsIn_other (Q := fun _ _ => True) id fun _ _ _ _ _ _ _ => trivial).bind
      fun _ _ _ => Discipline.avoidsIn_pure trivial

theorem hasRoomAlways_handleWebhook {config : AuthorizeNetConfig} {req : AuthorizeNetRequest}
    (htype : req.body.type = .str "chargeback.received")
    (hR : ∀ data, req.body.data = some data → ∀ r : Withdrawal,
      r.key = reversalKey data.transactionId.text → data.userId = .str r.user →
        data.amount = .int r.amount → R r) :
    HasRoomAlways R final (handleWebhook config req) := by
  cases hdata : req.body.data with
  | none =>
      refine hasRoomAlways_offLedger (handleWebhook_only config req (by simp [OffLedger, Stmt.writes])
        (by simp [OffLedger, Stmt.writes, ledgerTables]) ?_)
      rw [htype, hdata]
      exact only_throw _
  | some data =>
      unfold handleWebhook
      split
      · trivial
      split
      · trivial
      refine Discipline.avoids_bind (Discipline.avoids_exec_auto id (fun _ => trivial)
        fun env v found ws _ _ _ _ => ?_)
      cases found with
      | some _ => trivial
      | none =>
          rw [recordAndApply_eq htype hdata]
          have hbody : Roomy (Before R final) (query (.processedWebhookCreate req.body.eventId
              "authorize_net" req.body.type) >>= fun _ => openReversal data) (fun _ _ => True)
              (Before R final) := roomy_delivery (hR data hdata)
          have htransaction : HasRoomAlways R final (transaction ((query (.processedWebhookCreate
              req.body.eventId "authorize_net" req.body.type) >>= fun _ => openReversal data) >>=
                takeBack data)) :=
            hbody.transaction not_increments_of_offLedger
              fun d => offLedger_of_writesIn (by decide) (takeBack_only data d)
          refine (htransaction.bind_only not_increments_of_offLedger
            fun _ => only_pure _).tryCatch_only not_increments_of_offLedger fun err => ?_
          split
          · exact only_pure _
          · exact only_throw _

end AuthorizeNetWebhookController

end Calls

/-! ## The results -/

section Results

variable {ι : Type} {calls : ι → ReversalCall} {R : Withdrawal → Prop} {final : Data}

/-- What was planned is counted on. -/
theorem counted_planned : RefundsService.Counted (Planned calls final) final :=
  fun request gateway hrequest hgateway _ hkey huser hamount =>
    .inl ⟨request, gateway, hrequest, hgateway, hamount, hkey, huser⟩

/-- Every call keeps its withdrawals covered, and increments what has room. -/
theorem call_covered (i : ι) (db : Data) :
    (rangeProtocol (Planned calls final) final).wp (calls i).run (fun _ _ _ => True) {} db ∧
      HasRoomAlways (Planned calls final) final (calls i).run := by
  have hpost : ∀ {α : Type} {r : Except Err α} {c : LocalState} {db : Data},
      (rangeProtocol (Planned calls final) final).bindPost (fun _ => (pure () : Action Unit))
        (fun _ _ _ => True) r c db := by
    intro α r c db
    cases r <;> trivial
  cases hcall : calls i with
  | refund id =>
      constructor
      · refine (Protocol.wp_bind ..).mpr (Protocol.wp_mono _ (Q := fun _ _ _ => True)
          (fun _ _ _ _ => hpost) ?_)
        exact RefundsService.wp_processRefund_covered counted_planned
      · exact (RefundsService.hasRoomAlways_processRefund counted_planned).bind_only
          not_increments_of_offLedger fun _ => only_pure _
  | chargeback config req hasType =>
      have hR : ∀ data, req.body.data = some data → ∀ r : Withdrawal,
          r.key = reversalKey data.transactionId.text → data.userId = .str r.user →
            data.amount = .int r.amount → Planned calls final r :=
        fun data hdata r hkey huser hamount =>
          .inr ⟨i, config, req, hasType, data, hcall, hdata, hkey, huser, hamount⟩
      constructor
      · refine (Protocol.wp_bind ..).mpr (Protocol.wp_mono _ (Q := fun _ _ _ => True)
          (fun _ _ _ _ => hpost) ?_)
        exact AuthorizeNetWebhookController.wp_chargeback_covered hasType hR
      · exact (AuthorizeNetWebhookController.hasRoomAlways_handleWebhook hasType hR).bind_only
          not_increments_of_offLedger fun _ => only_pure _
  | other program offLedger => exact ⟨wp_offLedger offLedger, hasRoomAlways_offLedger offLedger⟩

variable {db : Database} {s s' : Sys Stmt Data RowWrite RowLock Err Unit ι}

/-- Until a run ends, what may still be booked stays covered. -/
theorem covered_of_runs [DecidableEq ι] (hcovered : Covered (Planned calls final) db.rows)
    (h : Runs postgres AnyStep (Sys.start db.rows fun i => (calls i).run) s)
    (hle : schema.le s.db final) : Before (Planned calls final) final s.db := by
  obtain ⟨-, hkept, -⟩ := inv_of_runs (D := locking) (I := CoveredUntil (Planned calls final) final)
    db.valid (fun _ => hcovered) (fun i => (call_covered i db.rows).1) h
  exact ⟨hle, hkept hle⟩

/-- Every step leads to such a state. -/
theorem runs_before [DecidableEq ι] (hcovered : Covered (Planned calls final) db.rows)
    (h : Runs postgres AnyStep (Sys.start db.rows fun i => (calls i).run) s)
    (hle : schema.le s.db final) :
    Runs postgres (fun _ _ s' => Before (Planned calls final) final s'.db)
      (Sys.start db.rows fun i => (calls i).run) s := by
  induction h with
  | refl => exact .refl
  | @step s₁ s₂ i hruns hstep hany ih =>
      have hok := (Discipline.SysOk.start locking db.valid _).runs hruns
      have hle₁ := (hok.1.runs (.step .refl hstep hany)).2
      exact .step (ih (schema.le_trans hle₁ hle)) hstep
        (covered_of_runs hcovered (.step hruns hstep hany) hle)

/-- A refund of which the gateway's part is done can be recorded. -/
theorem reversible_of_covered {request : RefundRequest} {gateway : GatewayRefund} {n : Int}
    (hv : schema.Valid final) (hcovered : Covered (Planned calls final) final)
    (hrequest : schema.find .refundRequests request.id final = some request)
    (hgateway : GatewayRefunded request.id gateway final) (hamount : gateway.refundedAmount = .int n)
    (hpos : 0 < n) (hfits : inInt32 n = true) (hadmin : HasUser LedgerService.SYSTEM_USER_ID final) :
    Reversible request (.int n) final := by
  refine ⟨hadmin, ?_⟩
  by_cases htaken : KeyTaken (refundLedgerKey request.id) final
  · exact .inl htaken
  · have hplanned : Planned calls final ⟨refundLedgerKey request.id, request.userId, n, hpos⟩ :=
      .inl ⟨request, gateway, hrequest, hgateway, hamount, rfl, rfl⟩
    obtain ⟨hroom, hroom'⟩ := hcovered.room hv hplanned htaken
    exact .inr ⟨n, rfl, hpos, hfits, hroom, hroom'⟩

end Results

/-- In every run of refunds and chargebacks, with anything else that is off the
ledger, whose withdrawals are covered at first: no increment of a balance is
refused for its range, and whatever the gateway has refunded can be recorded. -/
theorem ledger_inRange {ι : Type} [DecidableEq ι] (db : Database) (calls : ι → ReversalCall)
    (s : Sys Stmt Data RowWrite RowLock Err Unit ι)
    (h : Runs postgres AnyStep (Sys.start db.rows fun i => (calls i).run) s)
    (hcovered : Covered (Planned calls s.db) db.rows) :
    (∀ i, ∀ event ∈ (s.clients i).loc.trace, ¬event.Blamed Increments IsRange) ∧
      ∀ request gateway n, schema.find .refundRequests request.id s.db = some request →
        GatewayRefunded request.id gateway s.db → gateway.refundedAmount = .int n → 0 < n →
        inInt32 n = true → HasUser LedgerService.SYSTEM_USER_ID s.db →
        ∀ W result, result.refundedAmount = .int n →
          postgres.Sure W (RefundsService.recordRefund request result) (fun r _ _ => r = .ok ()) {}
            s.db := by
  have hok := (Discipline.SysOk.start locking db.valid fun i => (calls i).run).runs h
  have hbefore := covered_of_runs hcovered h (schema.le_refl s.db)
  constructor
  · exact Discipline.unblamed_of_runs (D := locking) not_isRange_fault db.valid ⟨hok.2, hcovered⟩
      (fun i => (call_covered i db.rows).2) (runs_before hcovered h (schema.le_refl s.db))
  · intro request gateway n hrequest hgateway hamount hpos hfits hadmin W result hresult
    have hreversible := reversible_of_covered hok.1.valid hbefore.2 hrequest hgateway hamount hpos
      hfits hadmin
    refine (sure_recordRefund hok.1.valid hrequest ?_).mono fun _ _ _ hr => hr.1
    rw [hresult]
    exact hreversible


/-! ## Two customers -/

/-- The chargeback of a charge of another user. -/
def otherChargeback (cents : Int) : AuthorizeNetRequest where
  rawBody := []
  signature := some "01"
  body :=
    { eventId := .str "event_1", type := .str "chargeback.received"
      data := some { userId := .str "other", transactionId := .str "charge_2", amount := .int cents } }

/-- A request for so many cents. -/
def approvedFor (cents : Int) : RefundRequest := { fiftyCents with amount := cents }

/-- Two users, one of whom gets a refund of so many cents. -/
def twoCustomers (cents : Int) : List RowWrite :=
  [.insert .users ⟨"user"⟩, .insert .users ⟨"other"⟩,
    .insert .users ⟨LedgerService.SYSTEM_USER_ID⟩, .insert .refundRequests (approvedFor cents)]

/-- One call handles the chargeback, the other processes the refund. -/
def twoReversals (cents : Int) (i : Fin 2) : ReversalCall :=
  if i = 0 then .chargeback constantHmac (otherChargeback cents) rfl else .refund "r1"

/-- One after the other. -/
def reverseBoth (n : Nat) : List (Fin 2 × Choice Env) :=
  List.replicate 22 (0, .go (.ordinary "a")) ++ List.replicate n (1, .go (.ordinary "b"))

/-- Users who own a dollar. -/
def dollarCustomers : Database := .ofWrites (twoCustomers 100) (by decide)

/-- Users who own twenty million. -/
def richCustomers : Database := .ofWrites (twoCustomers 2000000000) (by decide)

/-- The withdrawals of the two calls, on this database. -/
def plansOf (cents : Int) (db : Data) : Bool :=
  (db .refundRequests).all (·.id = "r1") && (db .gatewayRefunds).all (·.refundedAmount = .int cents)

theorem planned_of_plans {cents : Int} {db : Data} (h : plansOf cents db = true) (r : Withdrawal)
    (hr : Planned (twoReversals cents) db r) :
    r.key ∈ [refundLedgerKey "r1", reversalKey "charge_2"] ∧ r.amount ≤ cents := by
  rw [plansOf, Bool.and_eq_true, List.all_eq_true, List.all_eq_true] at h
  rcases hr with ⟨request, gateway, hrequest, hgateway, hamount, hkey, -⟩ |
    ⟨i, config, req, hasType, data, hcall, hdata, hkey, -, hamount⟩
  · have hid : request.id = "r1" := by simpa using h.1 request (Schema.mem_of_find hrequest)
    have hcents : gateway.refundedAmount = .int cents := by
      simpa using h.2 gateway (Schema.mem_of_find hgateway)
    rw [hkey, hid]
    rw [hamount, Js.int_inj] at hcents
    exact ⟨.head _, Int.le_of_eq hcents⟩
  · unfold twoReversals at hcall
    split at hcall
    · obtain ⟨rfl, rfl⟩ := ReversalCall.chargeback.inj hcall
      obtain rfl := Option.some.inj hdata
      rw [hkey]
      exact ⟨.tail _ (.head _), Int.le_of_eq (Js.int_inj.mp hamount).symm⟩
    · cases hcall

/-- A dollar each is booked. -/
theorem dollars_inRange :
    ∃ s, Runs postgres AnyStep (Sys.start dollarCustomers.rows fun i => (twoReversals 100 i).run) s ∧
      hasStatus "r1" .PROCESSED s.db = true ∧
      (∀ i, ∀ event ∈ (s.clients i).loc.trace, ¬event.Blamed Increments IsRange) ∧
      ∀ request gateway n, schema.find .refundRequests request.id s.db = some request →
        GatewayRefunded request.id gateway s.db → gateway.refundedAmount = .int n → 0 < n →
        inInt32 n = true → HasUser LedgerService.SYSTEM_USER_ID s.db →
        ∀ W result, result.refundedAmount = .int n →
          postgres.Sure W (RefundsService.recordRefund request result) (fun r _ _ => r = .ok ()) {}
            s.db := by
  have hplay : (replay postgres anyTime (reverseBoth 21)
      (Sys.start dollarCustomers.rows fun i => (twoReversals 100 i).run)).any
        (fun s => hasStatus "r1" .PROCESSED s.db && plansOf 100 s.db) = true := by decide +kernel
  obtain ⟨s, hs, hend⟩ := exists_runs_of_replay (C := AnyStep) (fun _ _ _ _ => trivial) hplay
  rw [Bool.and_eq_true] at hend
  have hopen : ∀ user type, accountBalance user type dollarCustomers.rows = 0 := fun _ _ => rfl
  have hcovered : Covered (Planned (twoReversals 100) s.db) dollarCustomers.rows :=
    covered_of_keys (n := 100) (by decide) (planned_of_plans hend.2) fun user type => by
      rw [hopen]
      decide
  exact ⟨s, hs, hend.1, ledger_inRange dollarCustomers (twoReversals 100) s hs hcovered⟩

/-- The increment of a balance left its column. -/
def overflowed : Event Stmt Err → Bool
  | .stmt (.ledgerAccountUpdate _ _) (.error (.rejected .range)) => true
  | _ => false

theorem blamed_of_overflowed {event : Event Stmt Err} (h : overflowed event = true) :
    event.Blamed Increments IsRange := by
  unfold overflowed at h
  split at h
  · exact ⟨trivial, rfl⟩
  · cases h

/-- The request is approved, the gateway has refunded, and revenue cannot bear it. -/
def unbearable (db : Data) (request : RefundRequest) : Bool :=
  request.status = .APPROVED && request.type = .PAYMENT && request.paymentRefundId = none &&
    (schema.find .gatewayRefunds (refundKey "r1") db).any (·.refundedAmount = .int 2000000000) &&
      schema.findBy .ledgerTransactions (.idempotencyKey (refundLedgerKey "r1")) db = none &&
        accountBalance LedgerService.SYSTEM_USER_ID .REVENUE db = -2000000000

/-- Such a request cannot be processed. -/
theorem not_processable_of_unbearable {db : Data} {request : RefundRequest} (hid : request.id = "r1")
    (h : unbearable db request = true) : ¬Processable request db := by
  simp only [unbearable, Bool.and_eq_true, decide_eq_true_eq] at h
  obtain ⟨⟨⟨⟨⟨-, htype⟩, hunpaid⟩, hgateway⟩, hnew⟩, hbalance⟩ := h
  obtain ⟨gateway, hfind, hamount⟩ := (Option.any_eq_true ..).mp hgateway
  have hrefunded : refundedFor request db = .int 2000000000 := by
    rw [refundedFor, hid, hfind]
    exact of_decide_eq_true hamount
  intro hprocessable
  rw [Processable, htype] at hprocessable
  rcases hprocessable with hpaid | ⟨-, -, hreversible⟩
  · rw [IsPaid, hunpaid] at hpaid
    exact hpaid rfl
  · rcases hreversible.room with ⟨t, ht⟩ | ⟨n, hn, -, -, hroom, -⟩
    · rw [hid, hnew] at ht
      cases ht
    · obtain rfl := Js.int_inj.mp (hrefunded.symm.trans hn)
      rw [HasRoom, hbalance] at hroom
      cases hroom

/-- Twenty million each is too much for revenue: the gateway has refunded, and the
request is never processed. -/
theorem millions_overflow :
    inInt32 2000000000 = true ∧ ∃ s request gateway,
      Runs postgres AnyStep (Sys.start richCustomers.rows fun i => (twoReversals 2000000000 i).run) s ∧
      (∃ event ∈ (s.clients 1).loc.trace, event.Blamed Increments IsRange) ∧
      schema.find .refundRequests "r1" s.db = some request ∧ request.status = .APPROVED ∧
      GatewayRefunded "r1" gateway s.db ∧ gateway.refundedAmount = .int 2000000000 ∧
      postgres.Sure Refunding (RefundsService.processRefund "r1")
        (fun _ _ db' => hasStatus "r1" .APPROVED db' = true) {} s.db := by
  have hplay : (replay postgres anyTime (reverseBoth 12)
      (Sys.start richCustomers.rows fun i => (twoReversals 2000000000 i).run)).any
        (fun s => (s.clients 1).loc.trace.any overflowed &&
          (schema.find .refundRequests "r1" s.db).any (unbearable s.db)) = true := by decide +kernel
  obtain ⟨s, hs, hend⟩ := exists_runs_of_replay (C := AnyStep) (fun _ _ _ _ => trivial) hplay
  rw [Bool.and_eq_true] at hend
  obtain ⟨event, hevent, hover⟩ := List.any_eq_true.mp hend.1
  obtain ⟨request, hfind, hstuck⟩ := (Option.any_eq_true ..).mp hend.2
  have hid : request.id = "r1" := Schema.id_of_find hfind
  have hnot := not_processable_of_unbearable hid hstuck
  simp only [unbearable, Bool.and_eq_true, decide_eq_true_eq] at hstuck
  obtain ⟨⟨⟨⟨⟨happroved, -⟩, -⟩, hgateway⟩, -⟩, -⟩ := hstuck
  obtain ⟨gateway, hgateway, hamount⟩ := (Option.any_eq_true ..).mp hgateway
  have hv := ((Discipline.SysOk.start locking richCustomers.valid _).runs hs).1.valid
  refine ⟨rfl, s, request, gateway, hs, ⟨event, hevent, blamed_of_overflowed hover⟩, hfind, happroved,
    hgateway, of_decide_eq_true hamount, ?_⟩
  have hfound : schema.find .refundRequests request.id s.db = some request := by rw [hid, hfind]
  have hsure := (sure_processRefund hv hfound happroved).mono fun r c db' hr =>
    (hr.resolve_left fun h => hnot h.1).2.2
  rw [hid] at hsure
  exact hsure

end PaymentBilling
