import PaymentBilling.Safety.CreditLegs
import PaymentBilling.Safety.Skips
import PaymentBilling.Spec.ChargeOutcomes
import PaymentBilling.Spec.OffLedger

/-!
# Safety.CreditsAndLedger

The two representations of what a user has: the credits and the asset account
of the ledger.

Purchases, refunded charges and payments on the chain move credits only, so
over a run of them the two stay together exactly when the credits come out even.
-/

namespace PaymentBilling

open Relational Transact AuthorizeNetWebhookController SolanaConfirmationController

/-! ## The credits of a call -/

/-- What a purchase grants. -/
def purchaseCredit (data : AuthorizeNetData) : Option (String × Int) :=
  if isCreditPurchase data then
    (creditAmount data.contextRef).map fun n => (purchaseCreditKey data.transactionId.text, n)
  else none

/-- What a refunded charge takes back. -/
def refundedCredit (data : AuthorizeNetData) : Option (String × Int) :=
  if isCreditPurchase data then
    (creditAmount data.contextRef).bind fun n =>
      if 0 < n then some (refundedCreditKey data.transactionId.text, -n) else none
  else none

namespace GatewayCall

/-- The credits of a call: the key they are logged under, and how they move. -/
def credit : GatewayCall → Option (String × Int)
  | card _ req => req.body.data.bind fun data =>
    if req.body.type = .str "charge.approved" then purchaseCredit data else refundedCredit data
  | chain _ event => event.data.map fun data => (chargeKey data.txHash, data.amount.whole)

/-- An approved charge, a refunded charge or a payment on the chain, of the user. -/
def Concerns (user : String) : GatewayCall → Prop
  | card _ req => (req.body.type = .str "charge.approved" ∨ req.body.type = .str "charge.refunded") ∧
    ∃ data, req.body.data = some data ∧ data.userId = .str user
  | chain _ event => ∃ data, event.data = some data ∧ data.userId = .str user

/-- The answer to an event that was not handled before. -/
def handled : GatewayCall → WebhookResponse ⊕ ConfirmationResponse
  | card _ _ => .inl {}
  | chain _ _ => .inr { settled := true }

end GatewayCall

/-- How the credits move over a run of calls, by the records and the keys that
are there when it begins. -/
def netCredits (recorded : Js → Bool) (logged : String → Bool) : List GatewayCall → Int
  | [] => 0
  | call :: calls =>
    if recorded call.announces then netCredits recorded logged calls
    else
      match call.credit with
      | none => netCredits (fun id => id = call.announces || recorded id) logged calls
      | some (key, n) => (if logged key then 0 else n) +
        netCredits (fun id => id = call.announces || recorded id) (fun k => k = key || logged k) calls

/-! ## One call -/

/-- No deduction of these credits was refused. -/
def Unrefused (user : String) (credit : Option (String × Int)) (trace : List (Event Stmt Err)) : Prop :=
  ∀ key n, credit = some (key, n) → ¬RefusedIn user (-n) trace

/-- What a call comes to in which nothing fails. -/
inductive Settles (user : String) (call : GatewayCall) (db : Data) : Data → Prop
  | skipped (h : HasRecord call.announces db) : Settles user call db db
  | handled {db₁ db' : Data} (hnew : ¬HasRecord call.announces db)
      (hmoved : Moved user call.credit db db₁) (hvalid : schema.Valid db₁)
      (hhandled : Handled call.announces db₁ db') : Settles user call db db'

theorem Settles.of_answer {α : Type} {user : String} {call : GatewayCall} {db db' : Data}
    {r a b : α} (hr : r = a ∨ r = b) (hskip : r = a → HasRecord call.announces db ∧ db' = db)
    (hok : r = b → ¬HasRecord call.announces db ∧ ∃ db₁, Moved user call.credit db db₁ ∧
      schema.Valid db₁ ∧ Handled call.announces db₁ db') : Settles user call db db' := by
  cases hr with
  | inl ha =>
      obtain ⟨hrecord, rfl⟩ := hskip ha
      exact .skipped hrecord
  | inr hb =>
      obtain ⟨hnew, db₁, hmoved, hv, hhandled⟩ := hok hb
      exact .handled hnew hmoved hv hhandled

section Calls

variable {config : AuthorizeNetConfig} {req : AuthorizeNetRequest} {data : AuthorizeNetData}
  {user : String} {db : Data}

/-- A charge that grants no credits. -/
theorem chargeApproved_parts (hcredit : purchaseCredit data = none) :
    ∃ q, chargeApproved data = (pure () >>= fun _ => pure () >>= fun _ => q) ∧
      ∃ Y, RecordsCharge .AUTHORIZE_NET data.transactionId (chargeCents data) Y ∧
        ∀ K past, (soloProtocol.knowing K).Does past q Y := by
  unfold purchaseCredit at hcredit
  unfold chargeApproved
  split
  · next hpurchase =>
    rw [if_pos hpurchase, Option.map_eq_none_iff] at hcredit
    rw [hcredit]
    exact ⟨pure (), rfl, _, recordsCharge_pure _ _ _, fun _ _ => Protocol.does_pure ()⟩
  · exact ⟨_, rfl, _, recordsCharge_recordChargeEffect data, fun _ _ => does_recordCharge data _⟩

/-- A charge of the user that is approved. -/
theorem wp_approved_settles (htype : req.body.type = .str "charge.approved")
    (hdata : req.body.data = some data) (huser : data.userId = .str user) :
    soloProtocol.wp (handleWebhook config req) (fun r c' db' => Flawless c'.trace →
      r = .ok { skipped := true } ∨ r = .ok {} → Settles user (.card config req) db db') {} db := by
  have hcredit : (GatewayCall.card config req).credit = purchaseCredit data := by
    simp [GatewayCall.credit, hdata, htype]
  cases hpurchased : purchaseCredit data with
  | some credit =>
      unfold purchaseCredit at hpurchased
      split at hpurchased
      · next hpurchase =>
        obtain ⟨n, hn, rfl⟩ := Option.map_eq_some_iff.mp hpurchased
        refine Protocol.wp_mono _ (fun r c' db' hr hflawless hanswer => ?_)
          (wp_purchase_alone htype hdata huser hpurchase hn)
        obtain ⟨hskip, hok⟩ := hr hflawless
        refine .of_answer hanswer hskip fun ha => ?_
        obtain ⟨hnew, db₁, hmoved, hv, hhandled, -⟩ := hok ha
        rw [hcredit, purchaseCredit, if_pos hpurchase, hn]
        exact ⟨hnew, db₁, hmoved, hv, hhandled⟩
      · cases hpurchased
  | none =>
      obtain ⟨q, hparts, Y, hY, hq⟩ := chargeApproved_parts hpurchased
      have happly : applyEvent req.body.type req.body.data = chargeApproved data := by
        rw [htype, hdata]
        rfl
      refine Protocol.wp_mono _ (fun r c' db' hr hflawless hanswer =>
        .of_answer hanswer (hr hflawless).1 (hr hflawless).2) (wp_handleWebhook_alone
          (R := fun _ db' => ∃ db₁, Moved user (GatewayCall.card config req).credit db db₁ ∧
            schema.Valid db₁ ∧ Handled req.body.eventId db₁ db') fun trace => ?_)
      rw [AuthorizeNetWebhookController.recordAndApply, happly, hparts]
      refine Protocol.wp_mono _ (fun r c' db' hr hok _ => ?_) (wp_recordFirst_alone (Y := fun _ => Y)
        (M := fun _ _ db₁ => db₁ = db) (fun _ _ => does_pure_subscription ()) (only_pure _)
        (fun c₁ => ⟨fun _ _ => rfl, rfl⟩) (fun K _ past => hq K past) fun _ => hY)
      obtain ⟨b, past, db₁, -, hmid, hv, hhandled, -⟩ := hr () hok
      rw [hcredit, hpurchased]
      exact ⟨db₁, hmid, hv, hhandled⟩

/-- The credits of a refunded charge. -/
theorem wp_chargeRefunded_moved {c : LocalState} (huser : data.userId = .str user) :
    soloProtocol.wp (chargeRefunded data) (fun r c' db' => (∀ b, r = .ok b → c'.stack = c.stack) ∧
      (Flawless c'.trace → Unrefused user (refundedCredit data) c'.trace →
        Moved user (refundedCredit data) db db')) c db := by
  unfold chargeRefunded refundedCredit
  split
  · cases hcredits : creditAmount data.contextRef with
    | none => exact ⟨fun _ _ => rfl, fun _ _ => rfl⟩
    | some n =>
        simp only [Option.bind_some]
        have hkey : CreditsService.givenKey (some (refundedCreditKey data.transactionId.text)) =
            some (refundedCreditKey data.transactionId.text) :=
          CreditsService.givenKey_append (by decide)
        rw [Protocol.wp_tryCatch, Protocol.wp_bind, huser]
        refine Protocol.wp_mono _ (fun r c' db' hr => ?_) (Protocol.wp_and _
          CreditsService.wp_deductCredits_alone
          (wp_deductCredits_settled _ (fun _ _ _ _ _ _ _ _ => ⟨trivial, trivial⟩) hkey))
        obtain ⟨⟨hstack, hdeducted⟩, -, hsettled⟩ := hr
        have hmoved : Flawless c'.trace → Unrefused user
            (if 0 < n then some (refundedCreditKey data.transactionId.text, -n) else none) c'.trace →
            Moved user
              (if 0 < n then some (refundedCreditKey data.transactionId.text, -n) else none) db db' := by
          intro hflawless hunrefused
          split
          · next hpos =>
            have hnot := hunrefused _ _ (if_pos hpos)
            rw [Int.neg_neg] at hnot
            exact MovedOnce.of_deducted (hdeducted hflawless) hpos hkey
              ((hsettled hflawless hpos).resolve_right hnot)
          · next hpos =>
            cases hdeducted hflawless with
            | nonpositive => rfl
            | known => rfl
            | uncovered => rfl
            | changed _ hamount hpos' =>
                obtain rfl := Js.int_inj.mp hamount
                exact (hpos hpos').elim
        cases r with
        | ok _ => exact ⟨fun _ _ => hstack, hmoved⟩
        | error _ => exact ⟨fun _ _ => hstack, hmoved⟩
  · exact ⟨fun _ _ => rfl, fun _ _ => rfl⟩

/-- A charge of the user that is refunded. -/
theorem wp_refunded_settles (htype : req.body.type = .str "charge.refunded")
    (hdata : req.body.data = some data) (huser : data.userId = .str user) :
    soloProtocol.wp (handleWebhook config req) (fun r c' db' => Flawless c'.trace →
      Unrefused user (refundedCredit data) c'.trace → r = .ok { skipped := true } ∨ r = .ok {} →
        Settles user (.card config req) db db') {} db := by
  have hcredit : (GatewayCall.card config req).credit = refundedCredit data := by
    simp [GatewayCall.credit, hdata, htype]
  have happly : applyEvent req.body.type req.body.data =
      (pure () >>= fun _ => chargeRefunded data >>= fun _ => pure ()) := by
    have hrefunded : applyEvent req.body.type req.body.data = chargeRefunded data := by
      rw [htype, hdata]
      rfl
    rw [hrefunded]
    exact (Prog.bind_pure _).symm
  refine Protocol.wp_mono _ (fun r c' db' hr hflawless hunrefused hanswer => .of_answer hanswer
    (hr hflawless).1 fun ha => ⟨((hr hflawless).2 ha).1, ((hr hflawless).2 ha).2 hunrefused⟩)
    (wp_handleWebhook_alone (R := fun trace db' => Unrefused user (refundedCredit data) trace → ∃ db₁,
      Moved user (GatewayCall.card config req).credit db db₁ ∧ schema.Valid db₁ ∧
        Handled req.body.eventId db₁ db') fun trace => ?_)
  rw [AuthorizeNetWebhookController.recordAndApply, happly, hcredit]
  refine Protocol.wp_mono _ (fun r c' db' hr hok hflawless hunrefused => ?_) (wp_recordFirst_alone
    (Y := fun _ => Effect.pure locking ())
    (M := fun _ past db₁ => Flawless past → Unrefused user (refundedCredit data) past →
      Moved user (refundedCredit data) db db₁)
    (fun _ _ => does_pure_subscription ()) (anyStmt_of_only (chargeRefunded_only data))
    (fun c₁ => wp_chargeRefunded_moved huser) (fun _ _ _ => Protocol.does_pure ())
    fun _ => recordsCharge_pure .AUTHORIZE_NET data.transactionId (chargeCents data))
  obtain ⟨b, past, db₁, hpast, hmid, hv, hhandled, -⟩ := hr () hok
  exact ⟨db₁, hmid (hflawless.of_grows hpast)
    fun key n hn href => hunrefused key n hn (href.mono hpast), hv, hhandled⟩

end Calls

/-- A call of the user in which nothing fails and no deduction is refused. -/
theorem wp_settles {user : String} (call : GatewayCall) (hcall : call.Concerns user) (db : Data) :
    soloProtocol.wp call.run (fun r c' db' => Flawless c'.trace → Unrefused user call.credit c'.trace →
      r = .ok call.skipped ∨ r = .ok call.handled → Settles user call db db') {} db := by
  cases call with
  | card config req =>
      obtain ⟨htype, data, hdata, huser⟩ := hcall
      have hwp : soloProtocol.wp (handleWebhook config req) (fun r c' db' => Flawless c'.trace →
          Unrefused user (GatewayCall.card config req).credit c'.trace →
            r = .ok { skipped := true } ∨ r = .ok {} →
              Settles user (.card config req) db db') {} db := by
        cases htype with
        | inl htype =>
            exact Protocol.wp_mono _ (fun _ _ _ hr hflawless _ => hr hflawless)
              (wp_approved_settles htype hdata huser)
        | inr htype =>
            have hcredit : (GatewayCall.card config req).credit = refundedCredit data := by
              simp [GatewayCall.credit, hdata, htype]
            rw [hcredit]
            exact wp_refunded_settles htype hdata huser
      refine (Protocol.wp_bind ..).mpr (Protocol.wp_mono _ (fun r c' db' hr => ?_) hwp)
      cases r with
      | ok a =>
          intro hflawless hunrefused hanswer
          refine hr hflawless hunrefused ?_
          simpa [GatewayCall.skipped, GatewayCall.handled] using hanswer
      | error e => exact fun _ _ hanswer => by cases hanswer with
        | inl h => cases h
        | inr h => cases h
  | chain setting event =>
      obtain ⟨data, hdata, huser⟩ := hcall
      have hannounces : (GatewayCall.chain setting event).announces = data.txHash := by
        simp [GatewayCall.announces, hdata]
      have hcredit : (GatewayCall.chain setting event).credit =
          some (chargeKey data.txHash, data.amount.whole) := by
        simp [GatewayCall.credit, hdata]
      refine (Protocol.wp_bind ..).mpr (Protocol.wp_mono _ (fun r c' db' hr => ?_)
        (wp_settled_alone hdata huser))
      cases r with
      | ok a =>
          intro hflawless _ hanswer
          obtain ⟨hskip, hok⟩ := hr hflawless
          refine .of_answer (r := a) (a := { settled := true, skipped := true })
            (b := { settled := true }) ?_ (fun ha => ?_) fun ha => ?_
          · simpa [GatewayCall.skipped, GatewayCall.handled] using hanswer
          · rw [hannounces]
            exact hskip (by rw [ha])
          · obtain ⟨hnew, db₁, hmoved, hv, hhandled, -⟩ := hok (by rw [ha])
            rw [hannounces, hcredit]
            exact ⟨hnew, db₁, hmoved, hv, hhandled⟩
      | error e => exact fun _ _ hanswer => by cases hanswer with
        | inl h => cases h
        | inr h => cases h

/-- The call leaves the ledger alone. -/
theorem run_offLedger {user : String} {call : GatewayCall} (hcall : call.Concerns user) :
    Only OffLedger call.run 0 := by
  cases call with
  | card config req =>
      obtain ⟨htype, data, hdata, -⟩ := hcall
      have happly : Only OffLedger (applyEvent req.body.type req.body.data) 0 := by
        rw [hdata]
        cases htype with
        | inl htype =>
            rw [htype]
            exact chargeApproved_offLedger data
        | inr htype =>
            rw [htype]
            exact chargeRefunded_offLedger data
      exact only_bind (handleWebhook_only config req (by simp [OffLedger, Stmt.writes])
        (by simp [OffLedger, Stmt.writes, ledgerTables]) happly) fun _ => only_pure _
  | chain setting event =>
      exact only_bind (handleConfirmation_only setting event
        (fun _ _ => by simp [OffLedger, Stmt.writes])
        (fun _ _ => by simp [OffLedger, Stmt.writes, ledgerTables]) fun data _ =>
          applyConfirmation_offLedger data) fun _ => only_pure _

theorem wp_accounts {α : Type} {p : Action α} {db : Data} (h : Only OffLedger p 0) :
    (Protocol.solo locking fun db' => db' .ledgerAccounts = db .ledgerAccounts).wp p
      (fun _ _ _ => True) {} db := by
  refine Protocol.wp_mono _ (fun _ _ _ _ => trivial) (Protocol.wp_only _ offLedger_of_exec
    (fun c db₁ ws _ hw _ hi _ => ⟨?_, trivial⟩) h)
  rw [applyAll_other fun w hin he => hw w hin (by rw [he]; decide)]
  exact hi

/-! ## Runs -/

/-- The calls of the user, one after the other: none fails, and no deduction is
refused. -/
inductive CleanRun (user : String) : Data → List GatewayCall → Data → Prop
  | nil {db : Data} : CleanRun user db [] db
  | cons {db db₁ db' : Data} {call : GatewayCall} {calls : List GatewayCall} {c : LocalState}
      {r : Except Err (WebhookResponse ⊕ ConfirmationResponse)} (hcall : call.Concerns user)
      (hends : postgres.Ends anyFault call.run {} db r c db₁)
      (hanswer : r = .ok call.skipped ∨ r = .ok call.handled) (hflawless : Flawless c.trace)
      (hunrefused : Unrefused user call.credit c.trace) (hrest : CleanRun user db₁ calls db') :
      CleanRun user db (call :: calls) db'

/-- The balance of the asset account of a user; no account is a balance of 0. -/
def assetBalanceOf (user : String) (db : Data) : Int :=
  ((schema.findBy .ledgerAccounts (.userAccount user .ASSET) db).map (·.balance)).getD 0

/-- Whether an event is recorded. -/
def recordedIn (db : Data) (id : Js) : Bool := (db .processedWebhooks).any (id = .str ·.id)

section Runs

variable {user : String} {call : GatewayCall} {calls : List GatewayCall} {db db' : Data}

theorem recordedIn_iff (hv : schema.Valid db) {id : Js} :
    recordedIn db id = true ↔ HasRecord id db := by
  simp only [recordedIn, List.any_eq_true, decide_eq_true_eq]
  constructor
  · intro ⟨row, hrow, hid⟩
    exact ⟨row.id, row, hid, hv.find_of_mem hrow⟩
  · intro ⟨i, row, hid, hfind⟩
    have hrow : row.id = i := Schema.id_of_find hfind
    exact ⟨row, Schema.mem_of_find hfind, by rw [hid, hrow]⟩

/-- A call that is handled is recorded, and no other is. -/
theorem recordedIn_of_handled {id : Js} (h : Handled id db db') :
    recordedIn db' = fun x => x = id || recordedIn db x := by
  obtain ⟨row, rfl, hrow⟩ := h.record
  funext x
  rw [recordedIn, hrow, List.any_append, Bool.or_comm, List.any_cons, List.any_nil, Bool.or_false]
  rfl

/-- One call moves the credits as it is counted. -/
theorem Settles.balanceOf (h : Settles user call db db') (hv : schema.Valid db)
    (calls : List GatewayCall) :
    balanceOf user db' + netCredits (recordedIn db') (isLogged db') calls =
      balanceOf user db + netCredits (recordedIn db) (isLogged db) (call :: calls) := by
  cases h with
  | skipped h => rw [netCredits, if_pos ((recordedIn_iff hv).mpr h)]
  | @handled db₁ _ hnew hmoved hv₁ hhandled =>
      have hrecorded : recordedIn db' = fun x => x = call.announces || recordedIn db x := by
        rw [recordedIn_of_handled hhandled]
        funext x
        rw [recordedIn, hmoved.other (by decide), recordedIn]
      have hlogged : isLogged db' = isLogged db₁ :=
        isLogged_of_same (hhandled.credits .creditTransactions (by decide))
      have hbalance : PaymentBilling.balanceOf user db' = PaymentBilling.balanceOf user db₁ :=
        balanceOf_of_same (hhandled.credits .credits (by decide))
      have hfresh : ¬recordedIn db call.announces = true := fun h => hnew ((recordedIn_iff hv).mp h)
      rw [netCredits, if_neg hfresh, hrecorded, hlogged, hbalance]
      cases hcredit : call.credit with
      | none =>
          rw [hcredit] at hmoved
          rw [show db₁ = db from hmoved]
      | some credit =>
          rw [hcredit] at hmoved
          have hmoved : MovedOnce user credit.1 credit.2 db db₁ := hmoved
          rw [hmoved.balanceOf hv, funext hmoved.isLogged, Int.add_assoc]

theorem CleanRun.books (h : CleanRun user db calls db') (hv : schema.Valid db) :
    balanceOf user db' = balanceOf user db + netCredits (recordedIn db) (isLogged db) calls ∧
      assetBalanceOf user db' = assetBalanceOf user db := by
  induction h with
  | nil => simp [netCredits]
  | @cons db db₁ db' call calls c r hcall hends hanswer hflawless hunrefused _ ih =>
      obtain ⟨hsettles, hv₁, -, -⟩ :=
        soloProtocol.ends_of_wp hv trivial .nil (wp_settles _ hcall _) hends
      obtain ⟨-, -, haccounts, -⟩ :=
        (Protocol.solo locking fun d => d .ledgerAccounts = db .ledgerAccounts).ends_of_wp hv rfl .nil
          (wp_accounts (run_offLedger hcall)) hends
      have hmove := (hsettles hflawless hunrefused hanswer).balanceOf hv calls
      obtain ⟨hcredits, hasset⟩ := ih hv₁
      constructor
      · rw [hcredits]
        exact hmove
      · rw [hasset, assetBalanceOf, assetBalanceOf, Schema.findBy, Schema.findBy, haccounts]

end Runs

/-! ## A purchase -/

/-- The event reads a balance of the user that does not cover the amount. -/
def readsUncovered (user : String) (amount : Int) : Event Stmt Err → Bool
  | .stmt (.creditsForUpdate userId) (.ok rows) =>
    userId = .str user && rows.head?.all fun row => row.balance < amount
  | _ => false

theorem not_refusedIn {user : String} {amount : Int} {trace : List (Event Stmt Err)}
    (h : trace.all (!readsUncovered user amount ·) = true) : ¬RefusedIn user amount trace := by
  intro ⟨rows, hread, hlow⟩
  have hnot := List.all_eq_true.mp h _ hread
  cases rows with
  | nil => simp [readsUncovered] at hnot
  | cons row rest =>
      have hlow : row.balance < amount := by simpa [CreditsService.Uncovered] using hlow
      simp [readsUncovered, hlow] at hnot

/-- A purchase of 100 credits. -/
def purchaseCall : GatewayCall := .card constantHmac purchaseDelivery

/-- The charge of that purchase is refunded. -/
def refundCall : GatewayCall :=
  .card constantHmac
    { refundedPurchase with body := { refundedPurchase.body with eventId := .str "event_2" } }

/-- What the call leaves when it runs alone. -/
def GatewayCall.play (id : String) (call : GatewayCall) (db : Data) :
    Except Err (WebhookResponse ⊕ ConfirmationResponse) × LocalState × Data :=
  playAlone id call.run db

theorem cleanRun_cons {user : String} (id key : String) (n : Int) {call : GatewayCall} {calls : List GatewayCall}
    {db db' : Data} (hcall : call.Concerns user) (hanswer : (call.play id db).1 = .ok call.handled)
    (hflawless : Flawless (call.play id db).2.1.trace) (hcredit : call.credit = some (key, n))
    (hunread : (call.play id db).2.1.trace.all (!readsUncovered user (-n) ·) = true)
    (hrest : CleanRun user (call.play id db).2.2 calls db') : CleanRun user db (call :: calls) db' := by
  refine .cons hcall (ends_playAlone hanswer) (.inr rfl) hflawless (fun key' n' h => ?_) hrest
  obtain ⟨-, rfl⟩ := Prod.mk.inj (Option.some.inj (hcredit.symm.trans h))
  exact not_refusedIn hunread

end PaymentBilling
