import PaymentBilling.Safety.DisputeCredits
import PaymentBilling.Spec.Refunds

/-!
# Safety.CreditLegs

The credits that belong to a reversal: refunds, chargebacks, refunded charges
and disputes that are won each change credits in the middle of a transaction,
and commit whether that has succeeded or not.

What is shown for each of them is that the change is in the log when the
transaction commits, or was refused, as long as no action of the call has
failed before.  Nothing is assumed of the other clients (`Protocol.any`).
-/

namespace PaymentBilling

open Relational Transact

/-- A balance of the user was read that does not cover the amount. -/
def RefusedIn (user : String) (amount : Int) (trace : List (Event Stmt Err)) : Prop :=
  ∃ rows, Event.stmt (.creditsForUpdate (.str user)) (.ok rows) ∈ trace ∧
    CreditsService.Uncovered (.int amount) rows

/-- A deduction is in the log, or was refused. -/
def TakenOrRefused (user : String) (amount : Int) (key : String) (trace : List (Event Stmt Err))
    (db : Data) : Prop :=
  CreditsService.Logged key db ∨ RefusedIn user amount trace

/-- A ledger transaction with this key is committed. -/
def NewlyBooked (key : String) (db db' : Data) : Prop := Unbooked key db ∧ ¬Unbooked key db'

/-- The dispute is now won. -/
def NewlyWon (id : String) (db db' : Data) : Prop :=
  (∀ d, schema.find .disputes id db = some d → d.status ≠ .WON) ∧
    ∃ d, schema.find .disputes id db' = some d ∧ d.status = .WON

section Facts

variable {user key : String} {amount : Int} {db db' : Data} {trace trace' : List (Event Stmt Err)}

theorem RefusedIn.mono (h : RefusedIn user amount trace) (hc : ∃ events, trace' = events ++ trace) :
    RefusedIn user amount trace' := by
  obtain ⟨rows, hrows, hlow⟩ := h
  obtain ⟨events, rfl⟩ := hc
  exact ⟨rows, List.mem_append_right _ hrows, hlow⟩

/-- The event reads a balance. -/
def readsBalance : Event Stmt Err → Bool
  | .stmt (.creditsForUpdate _) _ => true
  | _ => false

theorem not_refusedIn_of_unread (h : trace.all (!readsBalance ·) = true) :
    ¬RefusedIn user amount trace := by
  intro ⟨rows, hread, _⟩
  have hnot := List.all_eq_true.mp h _ hread
  cases hnot

theorem TakenOrRefused.mono (h : TakenOrRefused user amount key trace db)
    (hc : ∃ events, trace' = events ++ trace) (hv : schema.Valid db) (hle : locking.le db db') :
    TakenOrRefused user amount key trace' db' := h.imp (·.mono hv hle) (·.mono hc)

theorem not_newlyBooked (h : db' .ledgerTransactions = db .ledgerTransactions) :
    ¬NewlyBooked key db db' := by
  intro hnew
  refine hnew.2 ?_
  rw [Unbooked, h]
  exact hnew.1

theorem not_newlyWon {id : String} (h : db' .disputes = db .disputes) : ¬NewlyWon id db db' := by
  intro ⟨hnot, d, hd, hwon⟩
  have hsame : schema.find .disputes id db' = schema.find .disputes id db := by
    rw [Schema.find, h, Schema.find]
  exact hnot d (hsame.symm.trans hd) hwon

end Facts

/-! ## Calls of the credits service -/

section Rules

variable {I : Data → Prop} (P : Protocol locking I) {c : LocalState} {db : Data} {user k : String}
  {n : Int} {description : String} {metadata : Metadata}

/-- A deduction of a positive amount is logged or refused, unless an action fails. -/
theorem wp_deductCredits_settled {key : Option String}
    (hkeeps : ∀ c db ws user n key, I db → CreditChange user n key ws db →
      P.Keeps c db (postgres.applyAll ws db))
    (hkey : CreditsService.givenKey key = some k) :
    P.wp (CreditsService.deductCredits (.str user) (.int n) description key metadata)
      (fun _ c' db' => c'.stack = c.stack ∧
        (Flawless c'.trace → 0 < n → TakenOrRefused user n k c'.trace db')) c db := by
  refine CreditsService.wp_deductCredits _ (K := fun _ => True) (N := fun _ => True)
    (fun _ _ _ _ _ _ => trivial) trivial (fun _ _ _ _ _ => trivial) (fun _ _ _ _ _ _ _ _ => trivial)
    (fun e c' db' hc _ hreason => ⟨hc, fun hflawless hpos => .inr ?_⟩)
    (fun r c' db' k' hk' hc _ hlogged => ⟨hc, fun _ _ => .inl ?_⟩)
    fun r t c' db₁ user' n' _ _ _ hstack _ hs _ hchange =>
      ⟨hkeeps _ _ _ _ _ _ hs.inv hchange, rfl, fun _ _ => .inl ?_⟩
  · rcases hreason with hlow | ⟨events, rows, -, htrace, hmem, hlow, -⟩ | hfailed
    · rw [Js.le_int, decide_eq_true_eq] at hlow
      omega
    · exact ⟨rows, htrace ▸ List.mem_append_left _ hmem, hlow⟩
    · exact (hfailed.not_flawless hflawless).elim
  · obtain rfl := Option.some.inj (hk'.symm.trans hkey)
    exact hlogged
  · rw [hkey] at hchange
    exact hchange.logged_self (hs.fits hstack)

/-- A grant of a positive amount is logged, unless an action fails. -/
theorem wp_grantCredits_settled {type : CreditTransactionType}
    (hkeeps : ∀ c db ws user n key, I db → CreditChange user n key ws db →
      P.Keeps c db (postgres.applyAll ws db)) :
    P.wp (CreditsService.grantCredits (.str user) (.int n) type description k metadata)
      (fun _ c' db' => c'.stack = c.stack ∧
        (Flawless c'.trace → 0 < n → CreditsService.Logged k db')) c db := by
  refine CreditsService.wp_grantCredits _ (K := fun _ => True) (N := fun _ => True)
    (fun _ _ _ _ _ _ => trivial) trivial (fun _ _ _ => trivial) (fun _ _ _ _ _ _ => trivial)
    (fun e c' db' hc _ hreason => ⟨hc, fun hflawless hpos => ?_⟩)
    (fun r c' db' hc _ hlogged => ⟨hc, fun _ _ => hlogged⟩)
    fun r t c' db₁ user' n' _ _ _ hstack _ hs _ _ hchange =>
      ⟨hkeeps _ _ _ _ _ _ hs.inv hchange, rfl, fun _ _ => hchange.logged_self (hs.fits hstack)⟩
  rcases hreason with hlow | hfailed
  · rw [Js.le_int, decide_eq_true_eq] at hlow
    omega
  · exact (hfailed.not_flawless hflawless).elim

end Rules

/-! ## The protocols -/

/-- A step that commits `commits` has to leave `settled`, if nothing has failed. -/
def legProtocol (commits : Data → Data → Prop) (hcommits : ∀ db, ¬commits db db)
    (settled : LocalState → Data → Prop) : Protocol locking (fun _ => True) :=
  .any locking (fun c db db' => commits db db' → Flawless c.trace → settled c db')
    fun _ db h => (hcommits db h).elim

section Legs

variable {commits : Data → Data → Prop} {hcommits : ∀ db, ¬commits db db}
  {settled : LocalState → Data → Prop} {c : LocalState} {db db' : Data}

theorem legKeeps_of_not (h : ¬commits db db') :
    (legProtocol commits hcommits settled).Keeps c db db' := ⟨trivial, fun hc => (h hc).elim⟩

/-- Changes of credits commit no leg. -/
theorem legKeeps_credits
    (hother : ∀ db db', (∀ t, t ∉ creditTables → db' t = db t) → ¬commits db db') :
    ∀ c db ws user n key, True → CreditChange user n key ws db →
      (legProtocol commits hcommits settled).Keeps c db (postgres.applyAll ws db) := by
  intro c db ws user n key _ hchange
  refine legKeeps_of_not (hother _ _ fun t ht => ?_)
  simp only [creditTables, List.mem_cons, List.not_mem_nil, or_false, not_or] at ht
  exact hchange.other ht.1 ht.2

end Legs

/-! ## Payment refunds -/

namespace RefundsService

/-- The protocol of a refund: its ledger transaction comes with its deduction. -/
abbrev refundLeg (id : String) : Protocol locking (fun _ => True) :=
  legProtocol (NewlyBooked (refundLedgerKey id)) (fun _ h => not_newlyBooked rfl h)
    fun c db => ∀ r, schema.find .refundRequests id db = some r → 0 < r.amount →
      TakenOrRefused r.userId r.amount (refundKey id) c.trace db

variable {id : String} {seen : RefundRequest} {db : Data}

theorem refundKeeps_of_same {c : LocalState} {db' : Data}
    (h : db' .ledgerTransactions = db .ledgerTransactions) : (refundLeg id).Keeps c db db' :=
  legKeeps_of_not (not_newlyBooked h)

theorem wp_deductRefunded_settled {c : LocalState} (hv : schema.Valid db)
    (hok : locking.StackOk c.stack db) :
    (refundLeg id).wp (deductRefunded seen) (fun _ c' db' => c'.stack = c.stack ∧ schema.Valid db' ∧
      (Flawless c'.trace → 0 < seen.amount →
        TakenOrRefused seen.userId seen.amount (refundKey seen.id) c'.trace db')) c db := by
  rw [deductRefunded, Protocol.wp_tryCatch, Protocol.wp_bind]
  refine Protocol.wp_mono _ (fun r c' db' hr => ?_) (Protocol.wp_stackOk _ hv hok
    (wp_deductCredits_settled _ (legKeeps_credits fun _ _ hsame =>
      not_newlyBooked (hsame .ledgerTransactions (by decide))) (CreditsService.givenKey_append (by decide))))
  obtain ⟨⟨hstack, hsettled⟩, hv', -⟩ := hr
  cases r with
  | ok _ => exact ⟨hstack, hv', hsettled⟩
  | error _ => exact ⟨hstack, hv', hsettled⟩

/-- The transaction of a refund. -/
theorem wp_recordRefund_settled {result : RefundResult} {trace : List (Event Stmt Err)}
    (hseen : ∃ r, schema.find .refundRequests seen.id db = some r ∧ SameRequest seen r) :
    (refundLeg seen.id).wp (recordRefund seen result) (fun _ _ _ => True) ⟨[], trace⟩ db := by
  have hbody : recordRefund seen result =
      transaction (recordRows seen result >>= fun _ => deductRefunded seen >>= pure) := by
    rw [Prog.bind_pure]
    rfl
  rw [hbody]
  refine Protocol.wp_transaction_of_middle (K := fun _ => True)
    (Y := fun _ b => Effect.pure locking b)
    (R := fun _ _ c₁ db => schema.Valid db ∧ (Flawless c₁.trace → 0 < seen.amount →
      TakenOrRefused seen.userId seen.amount (refundKey seen.id) c₁.trace db))
    (Protocol.doesWith_true (does_recordRows seen result))
    (fun _ => anyStmt_of_only (deductRefunded_only seen))
    (fun _ b c₁ _ => Protocol.doesWith_of_knowing (Protocol.does_pure b)
      fun c' _ _ _ hs hr => ⟨hs.valid, fun hf hpos => (hr.2 hf hpos).mono ⟨[], rfl⟩ hr.1 hs.le⟩)
    (fun _ _ _ _ _ _ => trivial) trivial (fun _ t c₁ db₁ _ _ hv hok _ _ => ?_)
    (fun _ _ c₁ c' _ _ _ _ hs hr =>
      ⟨hs.valid, fun hf hpos => (hr.2 hf hpos).mono ⟨[], rfl⟩ hr.1 hs.le⟩)
    (fun _ _ _ _ _ => trivial) ?_
  · exact Protocol.wp_mono _ (fun _ _ _ hr => ⟨fun _ _ => hr.1, hr.2⟩)
      (wp_deductRefunded_settled hv hok)
  · intro _ _ _ t c₁ c' db' ws₁ ws₂ _ _ hpast hle hs hfits hws _ _ hr
    have hle' : locking.le db' (postgres.view t db') := locking.le_applyAll _ _
    refine ⟨⟨trivial, fun _ hf r hfind hpos => ?_⟩, trivial⟩
    obtain ⟨r₀, hr₀, hsame₀⟩ := hseen
    have hsame := sameRequest_of_le (locking.le_trans hle hle') hr₀ hfind
    rw [hsame.amount, hsame₀.amount] at hpos ⊢
    rw [hsame.userId, hsame₀.userId]
    exact (hr.2 (hf.of_grows hpast) hpos).mono hpast hr.1 hle'

/-- A refund commits its ledger transaction together with its deduction, or
after the deduction was refused. -/
theorem wp_processRefund_settled (id : String) (db : Data) :
    (refundLeg id).wp (processRefund id) (fun _ _ _ => True) {} db := by
  refine wp_processRefund _ (G := fun _ _ _ => True) (fun _ _ _ => trivial)
    (fun seen db₁ _ hseen _ => ?_)
    (fun _ _ _ _ _ _ _ _ => refundKeeps_of_same (apply_update_other (by decide) _ _ _))
    (fun _ _ _ _ _ _ _ _ _ _ => ⟨refundKeeps_of_same (apply_update_other (by decide) _ _ _), trivial⟩)
  have hid : seen.id = id := Schema.id_of_find hseen
  subst hid
  refine Protocol.wp_mono _ (Q := fun _ _ _ => True) (fun _ _ _ _ _ _ => trivial) ?_
  unfold dispatch
  split
  · -- credits are granted in a transaction of their own
    refine Protocol.wp_mono _ (fun _ _ _ _ => trivial) (Protocol.wp_only _ table_mem_of_writesIn
      (fun c db ws _ hw _ _ _ => refundKeeps_of_same (applyAll_other fun w hin he => ?_))
      (only_bind (CreditsService.grantCredits_only ..) fun _ => only_pure _))
    have hin' := hw w hin
    rw [he] at hin'
    revert hin'
    decide
  · unfold processPaymentRefund
    split
    · trivial
    split
    · trivial
    split
    · trivial
    rw [Protocol.wp_bind]
    unfold refundCharge
    rw [Protocol.wp_bind]
    refine Protocol.wp_exec_auto _ (fun _ _ _ => trivial) fun env r ws db₂ hs₂ hx => ?_
    obtain ⟨gateway, rfl, -, hrow⟩ := exec_refundCharge hx
    have hother : ∀ t, t ≠ .gatewayRefunds → postgres.applyAll ws db₂ t = db₂ t := by
      intro t ht
      rcases hrow with ⟨-, rfl⟩ | ⟨-, rfl⟩
      · rfl
      · exact apply_insert_other ht _ _
    refine ⟨refundKeeps_of_same (hother _ (by decide)), ?_⟩
    cases env.lost with
    | some message => trivial
    | none =>
        have hseen₂ := request_of_le (locking.le_trans hs₂.le (locking.le_applyAll ws _)) hseen
        exact wp_recordRefund_settled hseen₂

end RefundsService

/-! ## Chargebacks and refunded charges -/

namespace AuthorizeNetWebhookController

variable {config : AuthorizeNetConfig} {req : AuthorizeNetRequest} {data : AuthorizeNetData}
  {user : String} {n : Int} {db : Data}

/-- The protocol of a chargeback: its reversal comes with its deduction. -/
abbrev chargebackLeg (transactionId user : String) (n : Int) : Protocol locking (fun _ => True) :=
  legProtocol (NewlyBooked (reversalKey transactionId)) (fun _ h => not_newlyBooked rfl h)
    fun c db => 0 < n → TakenOrRefused user n (chargebackCreditKey transactionId) c.trace db

/-- The record of an event is committed. -/
def NewlyRecorded (id : String) (db db' : Data) : Prop :=
  schema.find .processedWebhooks id db = none ∧ schema.find .processedWebhooks id db' ≠ none

/-- The key of the deduction for a charge that is refunded. -/
def refundedCreditKey (transactionId : String) : String := "authorize_net_refund_" ++ transactionId

theorem not_newlyRecorded {id : String} {db' : Data}
    (h : db' .processedWebhooks = db .processedWebhooks) : ¬NewlyRecorded id db db' := by
  intro ⟨hnone, hsome⟩
  refine hsome ?_
  rw [← hnone, Schema.find, h, Schema.find]

/-- The protocol of a refunded charge: its record comes with its deduction. -/
abbrev refundedLeg (eventId transactionId user : String) (n : Int) :
    Protocol locking (fun _ => True) :=
  legProtocol (NewlyRecorded eventId) (fun _ h => not_newlyRecorded rfl h)
    fun c db => 0 < n → TakenOrRefused user n (refundedCreditKey transactionId) c.trace db

theorem wp_takeBack_settled {r : Option Dispute} {c : LocalState} (huser : data.userId = .str user)
    (hamount : data.amount = .int n) (hv : schema.Valid db) (hok : locking.StackOk c.stack db) :
    (chargebackLeg data.transactionId.text user n).wp (takeBack data r) (fun _ c' db' =>
      c'.stack = c.stack ∧ schema.Valid db' ∧ ∀ d, r = some d → Flawless c'.trace → 0 < n →
        TakenOrRefused user n (chargebackCreditKey data.transactionId.text) c'.trace db') c db := by
  cases r with
  | none => exact ⟨rfl, hv, nofun⟩
  | some d =>
    rw [takeBack, deductDisputed, huser, hamount, Protocol.wp_tryCatch, Protocol.wp_bind]
    refine Protocol.wp_mono _ (fun r' c' db' hr => ?_) (Protocol.wp_stackOk _ hv hok
      (wp_deductCredits_settled _ (legKeeps_credits fun _ _ hsame =>
        not_newlyBooked (hsame .ledgerTransactions (by decide)))
        (CreditsService.givenKey_append (by decide))))
    obtain ⟨⟨hstack, hsettled⟩, hv', -⟩ := hr
    cases r' with
    | ok _ => exact ⟨hstack, hv', fun _ _ => hsettled⟩
    | error _ => exact ⟨hstack, hv', fun _ _ => hsettled⟩

/-- A chargeback commits its reversal together with its deduction, or after the
deduction was refused. -/
theorem wp_chargeback_settled (htype : req.body.type = .str "chargeback.received")
    (hdata : req.body.data = some data) (huser : data.userId = .str user)
    (hamount : data.amount = .int n) (db : Data) :
    (chargebackLeg data.transactionId.text user n).wp (handleWebhook config req)
      (fun _ _ _ => True) {} db := by
  refine wp_deliverChargeback _ (K := fun _ => True)
    (R := fun r c₁ db => schema.Valid db ∧ ∀ d, r = some d → Flawless c₁.trace → 0 < n →
      TakenOrRefused user n (chargebackCreditKey data.transactionId.text) c₁.trace db) htype hdata
    (fun _ _ _ _ _ _ => trivial) trivial (fun r c₁ c' db₁ db₂ _ hs hr =>
      ⟨hs.valid, fun d hd hf hpos => (hr.2 d hd hf hpos).mono ⟨[], rfl⟩ hr.1 hs.le⟩)
    (fun _ _ => trivial) (fun _ _ _ => trivial) (fun r t c₁ db₁ _ _ hv hok _ _ => ?_)
    fun r t c₁ c' db' _ hpast hs hfits hx hr => ⟨⟨trivial, fun hnew hf hpos => ?_⟩, trivial⟩
  · exact Protocol.wp_mono _ (fun _ _ _ hr => ⟨fun _ _ => hr.1, hr.2⟩)
      (wp_takeBack_settled huser hamount hv hok)
  · cases r with
    | none => exact (not_newlyBooked (delivery_unopened hx (by decide)) hnew).elim
    | some d =>
        exact (hr.2 d rfl (hf.of_grows hpast) hpos).mono hpast hr.1 (locking.le_applyAll _ _)

/-- The events that take credits back. -/
theorem chargeRefunded_eq {amount : Int} (hpurchase : isCreditPurchase data = true)
    (hcredits : creditAmount data.contextRef = some amount) :
    chargeRefunded data = tryCatch
      (CreditsService.deductCredits data.userId (.int amount)
        ("Reversal for refunded charge " ++ data.transactionId.text)
        (some (refundedCreditKey data.transactionId.text)) >>= fun _ => pure ())
      fun _ => pure () := by
  unfold chargeRefunded
  rw [if_pos hpurchase, hcredits]
  rfl

theorem wp_chargeRefunded_settled {eventId : String} {c : LocalState}
    (huser : data.userId = .str user) (hpurchase : isCreditPurchase data = true)
    (hcredits : creditAmount data.contextRef = some n) (hv : schema.Valid db)
    (hok : locking.StackOk c.stack db) :
    (refundedLeg eventId data.transactionId.text user n).wp (chargeRefunded data) (fun _ c' db' =>
      c'.stack = c.stack ∧ schema.Valid db' ∧ (Flawless c'.trace → 0 < n →
        TakenOrRefused user n (refundedCreditKey data.transactionId.text) c'.trace db')) c db := by
  rw [chargeRefunded_eq hpurchase hcredits, huser, Protocol.wp_tryCatch, Protocol.wp_bind]
  refine Protocol.wp_mono _ (fun r c' db' hr => ?_) (Protocol.wp_stackOk _ hv hok
    (wp_deductCredits_settled _ (legKeeps_credits fun _ _ hsame =>
      not_newlyRecorded (hsame .processedWebhooks (by decide)))
      (CreditsService.givenKey_append (by decide))))
  obtain ⟨⟨hstack, hsettled⟩, hv', -⟩ := hr
  cases r with
  | ok _ => exact ⟨hstack, hv', hsettled⟩
  | error _ => exact ⟨hstack, hv', hsettled⟩

/-- A refunded charge commits its record together with its deduction, or after
the deduction was refused. -/
theorem wp_refunded_settled {eventId : String} (htype : req.body.type = .str "charge.refunded")
    (hdata : req.body.data = some data) (huser : data.userId = .str user)
    (hpurchase : isCreditPurchase data = true) (hcredits : creditAmount data.contextRef = some n)
    (db : Data) :
    (refundedLeg eventId data.transactionId.text user n).wp (handleWebhook config req)
      (fun _ _ _ => True) {} db := by
  refine wp_handleWebhook _ (fun _ _ _ => trivial) (fun _ _ _ _ _ _ _ => trivial) fun _ db₁ _ _ _ => ?_
  have happly : applyEvent req.body.type req.body.data = chargeRefunded data := by
    rw [htype, hdata]
    rfl
  rw [recordAndApply, happly, ← Prog.bind_pure (chargeRefunded data)]
  refine Protocol.wp_transaction_of_middle (K := fun _ => True) (Y := fun _ b => Effect.pure locking b)
    (R := fun _ _ c₁ db => schema.Valid db ∧ (Flawless c₁.trace → 0 < n →
      TakenOrRefused user n (refundedCreditKey data.transactionId.text) c₁.trace db))
    (Protocol.doesWith_true (does_eventRecord _ _ _ _))
    (fun _ => anyStmt_of_only (chargeRefunded_only data))
    (fun _ b c₁ _ => Protocol.doesWith_of_knowing (Protocol.does_pure b)
      fun c' _ _ _ hs hr => ⟨hs.valid, fun hf hpos => (hr.2 hf hpos).mono ⟨[], rfl⟩ hr.1 hs.le⟩)
    (fun _ _ _ _ _ _ => trivial) trivial (fun _ t c₁ db₁ _ _ hv hok _ _ => ?_)
    (fun _ _ c₁ c' _ _ _ _ hs hr =>
      ⟨hs.valid, fun hf hpos => (hr.2 hf hpos).mono ⟨[], rfl⟩ hr.1 hs.le⟩)
    (fun _ _ _ _ _ => ?_) ?_
  · exact Protocol.wp_mono _ (fun _ _ _ hr => ⟨fun _ _ => hr.1, hr.2⟩)
      (wp_chargeRefunded_settled huser hpurchase hcredits hv hok)
  · exact fun _ => trivial
  · intro _ _ _ t c₁ c' db' ws₁ ws₂ _ _ hpast _ hs hfits hws _ _ hr
    exact ⟨⟨trivial, fun _ hf hpos => (hr.2 (hf.of_grows hpast) hpos).mono hpast hr.1
      (locking.le_applyAll _ _)⟩, trivial⟩

end AuthorizeNetWebhookController

/-! ## Disputes that are won -/

namespace DisputesService

variable {id : String} {seen : Dispute} {db : Data}

/-- The protocol of a dispute that is won: its status comes with its grant. -/
abbrev wonLeg (id : String) : Protocol locking (fun _ => True) :=
  legProtocol (NewlyWon id) (fun _ h => not_newlyWon rfl h)
    fun _ db => ∀ d, schema.find .disputes id db = some d → 0 < d.amount →
      CreditsService.Logged (wonCreditKey id) db

theorem wp_restoreCredits_settled {c : LocalState} (hv : schema.Valid db)
    (hok : locking.StackOk c.stack db) :
    (wonLeg id).wp (restoreCredits seen) (fun _ c' db' => c'.stack = c.stack ∧ schema.Valid db' ∧
      (Flawless c'.trace → 0 < seen.amount →
        CreditsService.Logged (wonCreditKey seen.id) db')) c db := by
  rw [restoreCredits, Protocol.wp_tryCatch, Protocol.wp_bind]
  refine Protocol.wp_mono _ (fun r c' db' hr => ?_) (Protocol.wp_stackOk _ hv hok
    (wp_grantCredits_settled _ (legKeeps_credits fun _ _ hsame =>
      not_newlyWon (hsame .disputes (by decide)))))
  obtain ⟨⟨hstack, hsettled⟩, hv', -⟩ := hr
  cases r with
  | ok _ => exact ⟨hstack, hv', hsettled⟩
  | error _ => exact ⟨hstack, hv', hsettled⟩

/-- A dispute that is won commits its status together with its grant. -/
theorem wp_setOutcome_settled (id : String) (db : Data) :
    (wonLeg id).wp (setOutcome id .WON) (fun _ _ _ => True) {} db := by
  refine wp_setOutcome _ (fun _ _ _ _ => trivial) fun seen db₁ hs₁ hseen _ => ?_
  have hid : seen.id = id := Schema.id_of_find hseen
  subst hid
  refine wp_handleWon_parts _ (K := locking.le db₁)
    (R := fun c₁ db => locking.le db₁ db ∧ schema.Valid db ∧ (Flawless c₁.trace → 0 < seen.amount →
      CreditsService.Logged (wonCreditKey seen.id) db))
    (fun _ _ _ _ hs hk => locking.le_trans hk hs.le) (locking.le_refl _)
    (fun c₁ c' _ _ _ hs hr => ⟨locking.le_trans hr.1 hs.le, hs.valid,
      fun hf hpos => (hr.2.2 hf hpos).mono hr.2.1 hs.le⟩)
    (fun t c₁ db₂ _ _ hv hok hk => ?_) (fun _ _ _ _ _ => trivial)
    fun r t txn ws now c₁ c' db' _ _ hpast hs hfits _ _ hr =>
      ⟨⟨trivial, fun _ hf d hfind hpos => ?_⟩, trivial⟩
  · refine Protocol.wp_mono _ (fun _ _ _ hr => ?_) (Protocol.wp_frame _
      (anyStmt_of_only (restoreCredits_only seen)) (wp_restoreCredits_settled hv hok))
    exact ⟨hr.1.1, locking.le_trans hk hr.2.le, hr.1.2⟩
  · have hle : locking.le db' (postgres.view t db') := locking.le_applyAll _ _
    obtain ⟨d', hd', hsame⟩ := dispute_of_le (locking.le_trans hr.1 hle) hseen
    obtain rfl : d' = d := Option.some.inj (hd'.symm.trans hfind)
    rw [hsame.amount] at hpos
    exact (hr.2.2 (hf.of_grows hpast) hpos).mono hr.2.1 hle

end DisputesService

/-! ## The result -/

/-- A call that reverses money and takes credits back, or gives them back. -/
inductive LegCall
  | refund (id : String)
  | delivery (config : AuthorizeNetConfig) (req : AuthorizeNetRequest)
  | won (id : String)

/-- The program of a call, without its answer. -/
def LegCall.run : LegCall → Action Unit
  | refund id => RefundsService.processRefund id >>= fun _ => pure ()
  | delivery config req =>
    AuthorizeNetWebhookController.handleWebhook config req >>= fun _ => pure ()
  | won id => DisputesService.setOutcome id .WON >>= fun _ => pure ()

/-- A client in any company commits such a leg together with its credits, as
long as no action of its call has failed before. -/
theorem settled_of_runs {ι α : Type} [DecidableEq ι] {commits : Data → Data → Prop}
    {hcommits : ∀ db, ¬commits db db} {settled : LocalState → Data → Prop} {p : Action α}
    {db : Database} {progs : ι → Action Unit} {i : ι}
    {s s' : Sys Stmt Data RowWrite RowLock Err Unit ι}
    (hwp : ∀ db, (legProtocol commits hcommits settled).wp p (fun _ _ _ => True) {} db)
    (hprog : progs i = p >>= fun _ => pure ())
    (h : Runs postgres AnyStep (Sys.start db.rows progs) s) (hs : Step postgres s i s')
    (hflawless : Flawless (s.clients i).loc.trace) (hc : commits s.db s'.db) :
    settled (s.clients i).loc s'.db ∧ locking.SysOk s' := by
  have hclient : (legProtocol commits hcommits settled).wp (progs i) (fun _ _ _ => True) {} db.rows := by
    rw [hprog]
    refine (Protocol.wp_bind ..).mpr (Protocol.wp_mono _ (fun r _ _ _ => ?_) (hwp db.rows))
    cases r <;> trivial
  obtain ⟨hguar, hok⟩ := guar_of_runs (D := locking) db.valid hclient h hs
  exact ⟨hguar hc hflawless, hok.step hs⟩

/-- Whatever the other clients run: a refund or a chargeback that commits its
ledger transaction, a refunded charge that commits its record and a dispute
that becomes won come with their credits, which are logged or, where they are
taken back, were refused, as long as no action of the call has failed and the
amount is positive. -/
theorem creditLeg_settled {ι : Type} [DecidableEq ι] (db : Database) (progs : ι → Action Unit)
    (i : ι) (call : LegCall) (hcall : progs i = call.run)
    (s s' : Sys Stmt Data RowWrite RowLock Err Unit ι)
    (h : Runs postgres AnyStep (Sys.start db.rows progs) s) (hs : Step postgres s i s')
    (hflawless : Flawless (s.clients i).loc.trace) :
    (∀ id r, call = .refund id → NewlyBooked (refundLedgerKey id) s.db s'.db →
      schema.find .refundRequests id s'.db = some r → 0 < r.amount →
        TakenOrRefused r.userId r.amount (refundKey id) (s.clients i).loc.trace s'.db) ∧
    (∀ config req data user n, call = .delivery config req → req.body.data = some data →
      data.userId = .str user → 0 < n →
      (req.body.type = .str "chargeback.received" → data.amount = .int n →
        NewlyBooked (reversalKey data.transactionId.text) s.db s'.db →
          TakenOrRefused user n (chargebackCreditKey data.transactionId.text)
            (s.clients i).loc.trace s'.db) ∧
      (req.body.type = .str "charge.refunded" →
        AuthorizeNetWebhookController.isCreditPurchase data = true →
        AuthorizeNetWebhookController.creditAmount data.contextRef = some n →
        ∀ eventId, AuthorizeNetWebhookController.NewlyRecorded eventId s.db s'.db →
          TakenOrRefused user n
            (AuthorizeNetWebhookController.refundedCreditKey data.transactionId.text)
            (s.clients i).loc.trace s'.db)) ∧
    ∀ id d, call = .won id → NewlyWon id s.db s'.db → schema.find .disputes id s'.db = some d →
      0 < d.amount → ∀ s'', Runs postgres AnyStep s' s'' →
        CreditsService.Logged (wonCreditKey id) s''.db := by
  refine ⟨?_, ?_, ?_⟩
  · rintro id r rfl hnew hfind hpos
    exact (settled_of_runs (RefundsService.wp_processRefund_settled id) hcall h hs hflawless hnew).1
      r hfind hpos
  · rintro config req data user n rfl hdata huser hpos
    refine ⟨fun htype hamount hnew => ?_, fun htype hpurchase hcredits eventId hnew => ?_⟩
    · exact (settled_of_runs (AuthorizeNetWebhookController.wp_chargeback_settled htype hdata huser
        hamount) hcall h hs hflawless hnew).1 hpos
    · exact (settled_of_runs (AuthorizeNetWebhookController.wp_refunded_settled htype hdata huser
        hpurchase hcredits) hcall h hs hflawless hnew).1 hpos
  · rintro id d rfl hnew hfind hpos s'' hlater
    obtain ⟨hlogged, hok⟩ := settled_of_runs (DisputesService.wp_setOutcome_settled id) hcall h hs
      hflawless hnew
    exact (hlogged d hfind hpos).mono hok.valid (hok.runs hlater).2

/-- A refund of a purchase of 100 credits. -/
def refundedPurchase : AuthorizeNetRequest where
  rawBody := []
  signature := some "01"
  body :=
    { eventId := .str "event_1", type := .str "charge.refunded"
      data := some
        { userId := .str "user", transactionId := .str "charge_1", amount := .int 100
          contextType := .str "credit_purchase", contextRef := .str "100_credits" } }

/-- Its delivery, alone. -/
def refundedSystem : Sys Stmt Data RowWrite RowLock Err Unit (Fin 1) :=
  .start userWithCredits.rows fun _ => (LegCall.delivery constantHmac refundedPurchase).run

/-- The commit records the event, and nothing has failed before it. -/
def recordsFlawlessly (s : Sys Stmt Data RowWrite RowLock Err Unit (Fin 1) ×
    Sys Stmt Data RowWrite RowLock Err Unit (Fin 1)) : Bool :=
  Flawless (s.1.clients 0).loc.trace && (schema.find .processedWebhooks "event_1" s.1.db).isNone &&
    (schema.find .processedWebhooks "event_1" s.2.db).isSome && hasBalance "user" 50 s.2.db

/-- The commit records the event, and the balance was not even read. -/
def recordsUnread (s : Sys Stmt Data RowWrite RowLock Err Unit (Fin 1) ×
    Sys Stmt Data RowWrite RowLock Err Unit (Fin 1)) : Bool :=
  (s.1.clients 0).loc.trace.all (!readsBalance ·) &&
    (schema.find .processedWebhooks "event_1" s.1.db).isNone &&
    (schema.find .processedWebhooks "event_1" s.2.db).isSome &&
    (s.2.db .creditTransactions).isEmpty && hasBalance "user" 150 s.2.db

/-- A delivery in which nothing fails takes the credits back. -/
theorem refundedPurchase_settled :
    ∃ s s', Runs postgres AnyStep refundedSystem s ∧ Step postgres s 0 s' ∧
      hasBalance "user" 50 s'.db = true ∧
      TakenOrRefused "user" 100 (AuthorizeNetWebhookController.refundedCreditKey "charge_1")
        (s.clients 0).loc.trace s'.db := by
  have hplay : (replayStep postgres (List.replicate 9 (0, .go (.ordinary "a"))) 0
      (.go (.ordinary "a")) refundedSystem).any recordsFlawlessly = true := by decide +kernel
  obtain ⟨s, s', h, hs, hgoal⟩ := exists_step_of_replay hplay
  simp only [recordsFlawlessly, Bool.and_eq_true, decide_eq_true_eq] at hgoal
  obtain ⟨⟨⟨hflawless, hnone⟩, hsome⟩, hbalance⟩ := hgoal
  have hnew : AuthorizeNetWebhookController.NewlyRecorded "event_1" s.db s'.db :=
    ⟨Option.isNone_iff_eq_none.mp hnone, Option.isSome_iff_ne_none.mp hsome⟩
  exact ⟨s, s', h, hs, hbalance, ((creditLeg_settled userWithCredits _ 0
    (.delivery constantHmac refundedPurchase) rfl s s' h hs hflawless).2.1 constantHmac
    refundedPurchase _ "user" 100 rfl rfl rfl (by decide)).2 rfl rfl rfl "event_1" hnew⟩

/-- A timeout of the deduction is taken for a refusal. -/
theorem refundedTimeout_lost :
    ∃ s s', Runs postgres AnyStep refundedSystem s ∧ Step postgres s 0 s' ∧
      AuthorizeNetWebhookController.NewlyRecorded "event_1" s.db s'.db ∧
      balanceOf "user" s'.db = 150 ∧
      ¬TakenOrRefused "user" 100 (AuthorizeNetWebhookController.refundedCreditKey "charge_1")
        (s.clients 0).loc.trace s'.db := by
  have hplay : (replayStep postgres (List.replicate 4 (0, .go (.ordinary "a")) ++
      [(0, .fail "timeout"), (0, .go (.ordinary "a"))]) 0
      (.go (.ordinary "a")) refundedSystem).any recordsUnread = true := by decide +kernel
  obtain ⟨s, s', h, hs, hgoal⟩ := exists_step_of_replay hplay
  simp only [recordsUnread, Bool.and_eq_true] at hgoal
  obtain ⟨⟨⟨⟨hunread, hnone⟩, hsome⟩, hempty⟩, hbalance⟩ := hgoal
  refine ⟨s, s', h, hs, ⟨Option.isNone_iff_eq_none.mp hnone, Option.isSome_iff_ne_none.mp hsome⟩,
    of_decide_eq_true hbalance, fun hleg => ?_⟩
  cases hleg with
  | inl hlogged =>
      obtain ⟨row, hrow, -⟩ := hlogged
      rw [List.isEmpty_iff.mp hempty] at hrow
      cases hrow
  | inr hrefused => exact not_refusedIn_of_unread hunread hrefused

end PaymentBilling
