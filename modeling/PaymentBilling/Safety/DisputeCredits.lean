import PaymentBilling.Safety.Reversals
import PaymentBilling.Spec.CreditOutcomes

/-!
# Safety.DisputeCredits

The credits of a charge that is disputed and then won.

The chargeback takes the disputed amount only when the balance covers it, and
leaves no trace of a refusal; the outcome grants the amount in any case.
-/

namespace PaymentBilling

open Relational Transact AuthorizeNetWebhookController

/-- The key of the grant for a dispute that is won. -/
def wonCreditKey (id : String) : String := "dispute_won_" ++ id

/-- What a delivery of a chargeback takes back. -/
def TakenBack (data : AuthorizeNetData) : Option Dispute → Data → Data → Prop
  | none, db, db' => db' = db
  | some _, db, db' => CreditsService.Deducted data.userId data.amount
      (some (chargebackCreditKey data.transactionId.text)) db db'

section Calls

variable {db : Data} {data : AuthorizeNetData}

theorem balanceOf_of_same {db' : Data} {user : String} (h : db' .credits = db .credits) :
    balanceOf user db' = balanceOf user db := by
  rw [balanceOf, Schema.findBy, h, balanceOf]
  rfl

theorem wp_takeBack_alone {r : Option Dispute} {c : LocalState} :
    soloProtocol.wp (takeBack data r) (fun r' c' db' => (∀ b, r' = .ok b → c'.stack = c.stack) ∧
      (Flawless c'.trace → TakenBack data r db db')) c db := by
  cases r with
  | none => exact ⟨fun _ _ => rfl, fun _ => rfl⟩
  | some d =>
      rw [takeBack, deductDisputed, Protocol.wp_tryCatch, Protocol.wp_bind]
      refine Protocol.wp_mono _ (fun r' c' db' hr => ?_) CreditsService.wp_deductCredits_alone
      obtain ⟨hstack, htaken⟩ := hr
      cases r' with
      | ok _ => exact ⟨fun _ _ => hstack, htaken⟩
      | error _ => exact ⟨fun _ _ => hstack, htaken⟩

/-- A chargeback that is handled without a failure. -/
theorem wp_chargeback_alone {config : AuthorizeNetConfig} {req : AuthorizeNetRequest}
    (htype : req.body.type = .str "chargeback.received") (hdata : req.body.data = some data) :
    soloProtocol.wp (handleWebhook config req) (fun r c' db' => r = .ok {} → Flawless c'.trace →
      ∃ disputed ws db₁, TakenBack data disputed db db₁ ∧ schema.Valid db₁ ∧ locking.fitsAll ws db₁ ∧
        (deliveryEffect data).rel disputed ws db₁ ∧ db' = postgres.applyAll ws db₁) {} db := by
  refine wp_deliverChargeback _ (K := fun db' => db' = db)
    (R := fun r c₁ db' => Flawless c₁.trace → TakenBack data r db db') htype hdata
    (fun _ _ _ _ hs hk => hs.env.trans hk) rfl (fun _ _ _ _ _ _ hs hr => ?_) (fun _ _ => nofun)
    (fun _ _ _ => nofun) (fun r t c₁ db₁ _ _ _ _ _ hk => ?_)
    fun r t c₁ c' db' _ hpast hs hfits hx hr => ⟨⟨trivial, trivial⟩, fun _ hflawless => ?_⟩
  · rw [hs.env]
    exact hr
  · subst hk
    exact wp_takeBack_alone
  · have hflawless₁ : Flawless c₁.trace := (hflawless.of_grows ⟨[_], rfl⟩).of_grows hpast
    exact ⟨r, t.writes, db', hr hflawless₁, hs.valid, hfits, hx, rfl⟩

theorem wp_restoreCredits_alone {d : Dispute} {c : LocalState} :
    soloProtocol.wp (DisputesService.restoreCredits d) (fun _ c' db' => c'.stack = c.stack ∧
      (Flawless c'.trace → CreditsService.Granted (.str d.userId) (.int d.amount)
        (wonCreditKey d.id) db db')) c db := by
  rw [DisputesService.restoreCredits, Protocol.wp_tryCatch, Protocol.wp_bind]
  refine Protocol.wp_mono _ (fun r' c' db' hr => ?_) CreditsService.wp_grantCredits_alone
  obtain ⟨hstack, hgranted⟩ := hr
  cases r' with
  | ok _ => exact ⟨hstack, fun hflawless => (hgranted hflawless).1⟩
  | error _ => exact ⟨hstack, fun hflawless => (hgranted hflawless).1⟩

/-- A dispute that is won without a failure. -/
theorem wp_won_alone {id : String} {d : Dispute} (hfind : schema.find .disputes id db = some d) :
    soloProtocol.wp (DisputesService.setOutcome id .WON) (fun r c' db' => ∀ r', r = .ok r' →
      Flawless c'.trace → ∃ db₁, CreditsService.Granted (.str d.userId) (.int d.amount)
        (wonCreditKey id) db db₁ ∧ ∀ t ∈ creditTables, db' t = db₁ t) {} db := by
  refine DisputesService.wp_setOutcome _ (fun _ _ _ _ _ => nofun) fun seen db₁ hs₁ hseen _ => ?_
  obtain rfl : db₁ = db := hs₁.env
  obtain rfl : seen = d := Option.some.inj (hseen.symm.trans hfind)
  have hid : seen.id = id := Schema.id_of_find hfind
  subst hid
  refine DisputesService.wp_handleWon_parts _ (K := fun db' => db' = db₁)
    (R := fun c₁ db' => Flawless c₁.trace → CreditsService.Granted (.str seen.userId)
      (.int seen.amount) (wonCreditKey seen.id) db₁ db')
    (fun _ _ _ _ hs hk => hs.env.trans hk) rfl (fun _ _ _ _ _ hs hr => ?_)
    (fun t c₁ db' _ _ _ _ hk => ?_) (fun _ _ _ _ _ => nofun)
    fun r t txn ws now c₁ c' db' _ _ hpast hs hfits hws hx hr =>
      ⟨⟨trivial, trivial⟩, fun _ _ hflawless => ?_⟩
  · rw [hs.env]
    exact hr
  · subst hk
    exact wp_restoreCredits_alone
  · have hflawless₁ : Flawless c₁.trace := (hflawless.of_grows ⟨[_], rfl⟩).of_grows hpast
    refine ⟨db', hr hflawless₁, fun t' ht' => ?_⟩
    have hne : t' ≠ .disputes := by
      rintro rfl
      revert ht'
      decide
    have hledger : t' ∉ ledgerTables := by
      intro hin
      revert ht' hin
      cases t' <;> decide
    rw [Engine.view, hws, postgres.applyAll_append, applyAll_single, apply_update_other hne,
      hx.other hledger]

end Calls

/-! ## The round trip -/

/-- What may happen in between: the user's balance is left alone, and so is the
key. -/
structure Undisturbed (user key : String) (db db' : Data) : Prop where
  valid : schema.Valid db'
  le : locking.le db db'
  balance : balanceOf user db' = balanceOf user db
  unlogged : CreditsService.Unlogged key db → CreditsService.Unlogged key db'

/-- What a chargeback of `amount` leaves: its dispute, and a balance that was
lowered if it covered the amount. -/
theorem chargeback_taken {F : Faults Stmt RowWrite RowLock Err} {config : AuthorizeNetConfig}
    {req : AuthorizeNetRequest} {data : AuthorizeNetData} {db db₁ : Data}
    {c₁ : LocalState} {user : String} {amount : Int}
    (hv : schema.Valid db)
    (htype : req.body.type = .str "chargeback.received") (hdata : req.body.data = some data)
    (huser : data.userId = .str user) (hamount : data.amount = .int amount) (hpos : 0 < amount)
    (hundisputed : ∀ d ∈ db .disputes,
      d.gatewayDisputeId ≠ gatewayDisputeKey data.transactionId.text)
    (huntaken : CreditsService.Unlogged (chargebackCreditKey data.transactionId.text) db)
    (hends : postgres.Ends F (handleWebhook config req) {} db (.ok {}) c₁ db₁)
    (hflawless : Flawless c₁.trace) :
    schema.Valid db₁ ∧ balanceOf user db₁ = balanceOf user db -
        (if amount ≤ balanceOf user db then amount else 0) ∧
      ∀ d ∈ db₁ .disputes, d.gatewayDisputeId = gatewayDisputeKey data.transactionId.text →
        d.userId = user ∧ d.amount = amount ∧ (∀ d' ∈ db .disputes, d'.id ≠ d.id) ∧
        (CreditsService.Unlogged (wonCreditKey d.id) db →
          CreditsService.Unlogged (wonCreditKey d.id) db₁) := by
  obtain ⟨hq, hv₁, -, -⟩ := soloProtocol.ends_of_wp hv trivial .nil
    (wp_chargeback_alone htype hdata) hends
  obtain ⟨disputed, ws, db₀, htaken, -, hfits, hx, rfl⟩ := hq rfl hflawless
  have hsame : db₀ .disputes = db .disputes := by
    cases disputed with
    | none => rw [show db₀ = db from htaken]
    | some _ => exact CreditsService.Deducted.other htaken (by decide)
  rw [← hsame] at hundisputed
  obtain ⟨d₀, rfl, hopened, hnew, hdisputes⟩ := delivery_opened hundisputed hfits hx
  have hkey : CreditsService.givenKey (some (chargebackCreditKey data.transactionId.text)) =
      some (chargebackCreditKey data.transactionId.text) :=
    CreditsService.givenKey_append (by decide)
  have hdeducted : CreditsService.Deducted (.str user) (.int amount)
      (some (chargebackCreditKey data.transactionId.text)) db db₀ := by
    rw [← huser, ← hamount]
    exact htaken
  refine ⟨hv₁, ?_, fun d hd hgate => ?_⟩
  · rw [balanceOf_of_same (delivery_other hx (by decide)),
      hdeducted.balanceOf hv hpos fun k hk => ?_]
    obtain rfl := Option.some.inj (hkey.symm.trans hk)
    exact huntaken
  · have hd_same := hdisputes d hd hgate
    have hopened_user : user = d₀.userId := Js.str.inj (huser.symm.trans hopened.userId)
    have hopened_amount : amount = d₀.amount := by
      rw [← Js.int_inj, ← hamount, hopened.amount]
    refine ⟨hd_same.userId.trans hopened_user.symm, hd_same.amount.trans hopened_amount.symm,
      fun d' hd' => ?_, fun hu => ?_⟩
    · rw [hd_same.id]
      exact hnew d' (hsame ▸ hd')
    · rw [CreditsService.Unlogged, delivery_other hx (by decide)]
      refine hdeducted.unlogged (fun h => ?_) hu
      rw [hkey] at h
      have hchars := congrArg String.toList (Option.some.inj h)
      simp [chargebackCreditKey, wonCreditKey] at hchars

/-- A charge that is disputed for the first time and won leaves the balance of
its user as it was exactly when that covers the disputed amount. -/
theorem chargebackWon_neutral {F : Faults Stmt RowWrite RowLock Err} (config : AuthorizeNetConfig)
    (req : AuthorizeNetRequest) (data : AuthorizeNetData) (db : Database) (db₁ db₁' db₂ : Data)
    (c₁ c₂ : LocalState) (user : String) (amount : Int) (d r : Dispute)
    (htype : req.body.type = .str "chargeback.received") (hdata : req.body.data = some data)
    (huser : data.userId = .str user) (hamount : data.amount = .int amount) (hpos : 0 < amount)
    (hundisputed : ∀ d ∈ db.rows .disputes,
      d.gatewayDisputeId ≠ gatewayDisputeKey data.transactionId.text)
    (huntaken : CreditsService.Unlogged (chargebackCreditKey data.transactionId.text) db.rows)
    (hunwon : ∀ id, (∀ d ∈ db.rows .disputes, d.id ≠ id) →
      CreditsService.Unlogged (wonCreditKey id) db.rows)
    (hchargeback : postgres.Ends F (handleWebhook config req) {} db.rows (.ok {}) c₁ db₁)
    (hflawless₁ : Flawless c₁.trace) (hd : d ∈ db₁ .disputes)
    (hgate : d.gatewayDisputeId = gatewayDisputeKey data.transactionId.text)
    (hbetween : Undisturbed user (wonCreditKey d.id) db₁ db₁')
    (hwon : postgres.Ends F (DisputesService.setOutcome d.id .WON) {} db₁' (.ok r) c₂ db₂)
    (hflawless₂ : Flawless c₂.trace) :
    balanceOf user db₂ = balanceOf user db.rows ↔ amount ≤ balanceOf user db.rows := by
  obtain ⟨hv₁, hbalance₁, hdisputes⟩ := chargeback_taken db.valid htype hdata huser hamount hpos hundisputed
    huntaken hchargeback hflawless₁
  obtain ⟨hd_user, hd_amount, hnew, hunlogged⟩ := hdisputes d hd hgate
  obtain ⟨d', hfind, hsame⟩ := dispute_of_le hbetween.le (hv₁.find_of_mem hd)
  obtain ⟨hq, -⟩ := soloProtocol.ends_of_wp hbetween.valid trivial .nil (wp_won_alone hfind) hwon
  obtain ⟨db₃, hgranted, hcredits⟩ := hq r rfl hflawless₂
  rw [hsame.userId, hsame.amount, hd_user, hd_amount] at hgranted
  have hbalance₃ := hgranted.balanceOf hbetween.valid hpos
    (hbetween.unlogged (hunlogged (hunwon d.id hnew)))
  rw [balanceOf_of_same (hcredits .credits (by decide)), hbalance₃, hbetween.balance, hbalance₁]
  constructor
  · intro h
    split at h
    · assumption
    · omega
  · intro h
    rw [if_pos h]
    omega

theorem ends_solo_env {α : Type} {F : Faults Stmt RowWrite RowLock Err} {env : Env} {p : Action α}
    {db : Data} {r : Except Err α} (h : (postgres.solo (fun _ => .go env) p {} db).1 = r) :
    postgres.Ends F p {} db r (postgres.solo (fun _ => .go env) p {} db).2.1
      (postgres.solo (fun _ => .go env) p {} db).2.2 := by
  rw [← h]
  refine Engine.ends_solo (fun _ => ?_) p {} db
  trivial

/-- The answer of a call that is played out alone, and what it leaves. -/
def playAlone {α : Type} (id : String) (p : Action α) (db : Data) : Except Err α × LocalState × Data :=
  postgres.solo (fun _ => .go (.ordinary id)) p {} db

theorem ends_playAlone {α : Type} {F : Faults Stmt RowWrite RowLock Err} {id : String} {p : Action α}
    {db : Data} {r : Except Err α} (h : (playAlone id p db).1 = r) :
    postgres.Ends F p {} db r (playAlone id p db).2.1 (playAlone id p db).2.2 :=
  ends_solo_env h

theorem valid_playAlone {α : Type} {id : String} {p : Action α} {db : Data} (hv : schema.Valid db) :
    schema.Valid (playAlone id p db).2.2 :=
  (soloProtocol.ends_of_wp hv trivial .nil
    (Protocol.wp_of_keeps (fun _ _ _ => ⟨trivial, trivial⟩) p {} db)
    (ends_playAlone (F := anyFault) rfl)).2.1

/-- The delivery of a chargeback of 100 cents, which opens the dispute `a`. -/
def playChargeback (db : Data) : Except Err WebhookResponse × LocalState × Data :=
  playAlone "a" (handleWebhook constantHmac (chargebackUnder "event_1")) db

/-- The dispute `a` is won. -/
def playWon (db : Data) : Except Err Dispute × LocalState × Data :=
  playAlone "b" (DisputesService.setOutcome "a" .WON) db

/-- A user with 150 credits. -/
def userWithCredits : Database :=
  .ofWrites [.insert .users ⟨"user"⟩, .insert .users ⟨LedgerService.SYSTEM_USER_ID⟩,
    .insert .credits ⟨"credits_1", "user", 150⟩] (by decide)

theorem exists_of_isOk {ε α : Type} {r : Except ε α} (h : r.isOk = true) : ∃ a, r = .ok a := by
  cases r with
  | ok a => exact ⟨a, rfl⟩
  | error e => cases h

/-- The balance of 150 credits covers the chargeback, and is 150 again. -/
theorem winCovered_neutral :
    let db₁ := (playChargeback userWithCredits.rows).2.2
    let db₂ := (playWon db₁).2.2
    balanceOf "user" db₁ = 50 ∧ (balanceOf "user" db₂ = balanceOf "user" userWithCredits.rows ↔
      100 ≤ balanceOf "user" userWithCredits.rows) := by
  intro db₁ db₂
  have hok : (playChargeback userWithCredits.rows).1 = .ok {} := by decide +kernel
  obtain ⟨r, hr⟩ : ∃ r, (playWon db₁).1 = .ok r :=
    exists_of_isOk (show (playWon db₁).1.isOk = true by decide +kernel)
  obtain ⟨d, hd, hid, hgate⟩ : ∃ d ∈ db₁ .disputes, d.id = "a" ∧
      d.gatewayDisputeId = gatewayDisputeKey "charge_1" := by decide +kernel
  have hchargeback : postgres.Ends noFault (handleWebhook constantHmac (chargebackUnder "event_1")) {}
      userWithCredits.rows (.ok {}) (playChargeback userWithCredits.rows).2.1 db₁ := ends_playAlone hok
  have hwon : postgres.Ends noFault (DisputesService.setOutcome "a" .WON) {} db₁ (.ok r)
      (playWon db₁).2.1 db₂ := ends_playAlone hr
  rw [← hid] at hwon
  have hv₁ : schema.Valid db₁ := (soloProtocol.ends_of_wp userWithCredits.valid trivial .nil
    (wp_chargeback_alone rfl rfl) hchargeback).2.1
  refine ⟨by decide +kernel, chargebackWon_neutral constantHmac (chargebackUnder "event_1") _
    userWithCredits db₁ db₁ db₂ _ _ "user" 100 d r rfl rfl rfl rfl (by decide) (fun d hd => nomatch hd)
    (fun row hrow => nomatch hrow) (fun _ _ row hrow => nomatch hrow) hchargeback (by decide +kernel)
    hd hgate ⟨hv₁, locking.le_refl _, rfl, id⟩ hwon (by decide +kernel)⟩

/-- Without credits the chargeback takes nothing, and 100 credits are won. -/
theorem winUncovered_gains :
    let db₁ := (playChargeback twoUsers.rows).2.2
    let db₂ := (playWon db₁).2.2
    postgres.Ends noFault (handleWebhook constantHmac (chargebackUnder "event_1")) {} twoUsers.rows
        (.ok {}) (playChargeback twoUsers.rows).2.1 db₁ ∧
      Flawless (playChargeback twoUsers.rows).2.1.trace ∧
      (∃ d ∈ db₁ .disputes, d.id = "a" ∧ d.gatewayDisputeId = gatewayDisputeKey "charge_1") ∧
      postgres.Ends noFault (DisputesService.setOutcome "a" .WON) {} db₁ (playWon db₁).1
        (playWon db₁).2.1 db₂ ∧
      (playWon db₁).1.isOk = true ∧ Flawless (playWon db₁).2.1.trace ∧
      balanceOf "user" twoUsers.rows = 0 ∧ balanceOf "user" db₂ ≠ balanceOf "user" twoUsers.rows := by
  intro db₁ db₂
  have hok : (playChargeback twoUsers.rows).1 = .ok {} := by decide +kernel
  exact ⟨ends_playAlone hok, by decide +kernel, by decide +kernel, ends_playAlone rfl,
    by decide +kernel, by decide +kernel, by decide +kernel, by decide +kernel⟩

end PaymentBilling
