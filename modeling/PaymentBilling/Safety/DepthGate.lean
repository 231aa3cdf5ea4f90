import PaymentBilling.Spec.Healthy

/-!
# Safety.DepthGate

A confirmation settles its transaction once it is deep enough.  The comparison
that decides this runs on whatever the body and the setting hold, and a
comparison with something that is not a number is false: what cannot be compared
is settled.
-/

namespace PaymentBilling

open Relational Transact

/-! ## Numbers that are compared -/

/-- Of two numbers, the one that is not below the other is above it. -/
theorem JsNum.le_of_not_lt {a b : JsNum} (ha : a ≠ .nan) (hb : b ≠ .nan) (h : a.lt b = false) :
    b.le a = true := by
  cases a with
  | nan => exact (ha rfl).elim
  | infinity s =>
      cases b with
      | nan => exact (hb rfl).elim
      | infinity t => cases s <;> cases t <;> simp_all [lt, le]
      | fin q => simp_all [lt, le]
  | fin p =>
      cases b with
      | nan => exact (hb rfl).elim
      | infinity t => simp_all [lt, le]
      | fin q =>
          simp only [lt, decide_eq_false_iff_not] at h
          simp only [le, decide_eq_true_eq]
          exact Rat.not_lt.mp h

namespace SolanaConfirmationController

/-- The confirmation reaches a required depth that is a positive integer. -/
def Deep (setting : Option String) (data : SolanaData) : Prop :=
  ∃ depth required, data.confirmations = .num depth ∧
    requiredConfirmations setting = .int required ∧ 0 < required ∧
    (Js.int required).le data.confirmations = true

/-- The depth is a number, and so is the required one, which asks for something. -/
def Comparable (setting : Option String) (data : SolanaData) : Prop :=
  (∃ depth, data.confirmations = .num depth ∧ depth ≠ .nan) ∧
    ∃ required, requiredConfirmations setting = .int required ∧ 0 < required

theorem deep_of_comparable {setting : Option String} {data : SolanaData}
    (h : Comparable setting data)
    (hlt : data.confirmations.lt (requiredConfirmations setting) = false) : Deep setting data := by
  obtain ⟨⟨depth, hdepth, hnan⟩, required, hrequired, hpos⟩ := h
  refine ⟨depth, required, hdepth, hrequired, hpos, ?_⟩
  rw [hdepth, hrequired] at hlt
  rw [hdepth]
  exact JsNum.le_of_not_lt hnan (by simp [Js.int, Js.number]) hlt

theorem comparable_of_deep {setting : Option String} {data : SolanaData}
    (h : Deep setting data) : Comparable setting data := by
  obtain ⟨depth, required, hdepth, hrequired, hpos, hle⟩ := h
  refine ⟨⟨depth, hdepth, ?_⟩, required, hrequired, hpos⟩
  intro hnan
  rw [hdepth, hnan] at hle
  simp [Js.le, Js.int, Js.number, JsNum.le] at hle

/-! ## What can be settled -/

/-- The values are such that a settlement gets as far as the credits. -/
structure Settleable (data : SolanaData) : Prop where
  txHash : ∃ txHash, data.txHash = .str txHash
  userId : ∃ user, data.userId = .str user
  amount : ∃ n, data.amount = .int n ∧ 0 < n ∧ inInt32 n = true
  subscription : data.plan.truthy = true → Activates data

section Settle

variable {data : SolanaData} {user txHash : String} {n : Int}

/-- For a user who exists and a hash that is new, the credits are granted. -/
theorem sure_settle {db : Data} (hv : schema.Valid db) (htxHash : data.txHash = .str txHash)
    (hnew : schema.find .processedWebhooks txHash db = none) (huser : data.userId = .str user)
    (h : HasUser user db) (hamount : data.amount = .int n) (hpos : 0 < n)
    (hgrant : CreditsService.Grantable user n (chargeKey (.str txHash)) db)
    (hactivates : data.plan.truthy = true → Activates data) :
    postgres.Sure (Dated fun _ => none) (settle data)
      (fun _ _ db' => CreditsService.Logged (chargeKey (.str txHash)) db') {} db := by
  have hlasts : ∀ db₁ db₂, locking.valid db₁ → locking.le db₁ db₂ →
      CreditsService.Logged (chargeKey (.str txHash)) db₁ →
      CreditsService.Logged (chargeKey (.str txHash)) db₂ := fun _ _ hv hle hl => hl.mono hv hle
  -- the transaction
  have hrecord : ∀ trace, postgres.Sure (Dated fun _ => none) (recordAndApply data)
      (fun _ _ db' => CreditsService.Logged (chargeKey (.str txHash)) db') ⟨[], trace⟩ db := by
    intro trace
    rw [recordAndApply, applyConfirmation_first, ← Prog.bind_assoc, creditPayment, htxHash]
    refine Engine.sure_transaction_lasts (D := locking) hlasts hv .nil (by simp)
      (goes_record hv hnew fun v hv' hle =>
        goes_activateFirst hv' huser (exists_find_mono hle h) hactivates) fun _ c₁ hheld => ?_
    rw [huser, hamount]
    refine (CreditsService.sure_grantCredits hv (freeOf_creditTables fun l hl =>
      (hheld l hl).resolve_right (by simp)) hpos hgrant).mono fun r c' db' hr => ?_
    obtain ⟨_, _, _, hlogged⟩ := hr
    exact hlogged
  -- around it
  refine Engine.sure_bind (Engine.sure_exec_auto fun env _ => ?_)
  rw [htxHash, processedWebhookFindUnique_ok, hnew]
  refine Engine.Sure.lasts (D := locking) hlasts hv .nil ?_
  exact Engine.Sure.lasts (D := locking) hlasts hv .nil (hrecord _)

/-! ## What cannot be settled -/

/-- Nothing is ever changed. -/
abbrev unchanged : Protocol locking (fun _ => True) :=
  .any locking (fun _ db db' => db' = db) fun _ _ => rfl

theorem does_activateFirst_fact {I : Data → Prop} {P : Protocol locking I}
    {past : List (Event Stmt Err)} :
    P.Does past (activateFirst data)
      (.fact locking Unit (data.plan.truthy = true → Activates data)) := by
  unfold activateFirst
  split
  · have hcreate : P.Does past (SubscriptionsService.createOrUpdateFromGateway (activation data))
        (.fact locking Subscription (Activates data)) := by
      refine Protocol.does_weaken (Protocol.does_bind (X := .fact locking _
        (∃ plan, SubscriptionPlan.ofJs? data.plan = some plan)) ?_ fun _ =>
          Protocol.does_bind (X := .fact locking _
            (∃ id, (data.reference.or data.txHash).nullableString? = some id)) ?_ fun _ =>
              Protocol.does_pure _) ?_
      · refine Protocol.does_exec fun env db row ws _ hx => ?_
        obtain ⟨_, plan, _, _, -, hplan, -⟩ := exec_subscriptionUpsert hx
        exact ⟨plan, hplan⟩
      · refine Protocol.does_exec fun env db row ws _ hx => ?_
        obtain ⟨id, _, hid, -⟩ := exec_gatewaySubscriptionUpsert hx
        exact ⟨id, hid⟩
      · intro _ _ _ h
        obtain ⟨_, _, _, -, hplan, _, _, _, -, hid, -⟩ := h
        exact ⟨hplan, hid⟩
    exact Protocol.does_map hcreate fun _ _ _ h _ => h
  · next hplan => exact Protocol.does_weaken (Protocol.does_pure ()) fun _ _ _ _ h => (hplan h).elim

/-- The grant of a transaction that cannot be settled is refused, or was made
before. -/
theorem wp_addCredits_unchanged (htxHash : data.txHash = .str txHash) (h : ¬Settleable data)
    (hactivates : data.plan.truthy = true → Activates data) {type : CreditTransactionType}
    {description key : String} {metadata : Metadata} {c : LocalState} {db : Data} :
    unchanged.wp (CreditsService.addCredits data.userId data.amount type description key metadata)
      (fun r c' _ => (∀ b, r = .ok b → c'.stack = c.stack) ∧
        ∀ b, r = .ok b → data.amount.le (.int 0) = false) c db := by
  cases hpos : data.amount.le (.int 0) with
  | true =>
      rw [CreditsService.addCredits, CreditsService.grantCredits, if_pos hpos]
      exact ⟨fun _ h => (by cases h), fun _ h => by cases h⟩
  | false =>
      refine CreditsService.wp_grantCredits _ (K := fun _ => True) (N := fun _ => True)
        (fun _ _ _ _ _ _ => trivial) trivial (fun _ _ _ => trivial) (fun _ _ _ _ _ _ => trivial)
        (fun _ _ _ _ _ _ => ⟨fun _ h => (by cases h), fun _ h => by cases h⟩)
        (fun _ _ _ hc _ _ => ⟨fun _ _ => hc, fun _ _ => rfl⟩)
        fun r t c' db₁ user n huser hamount hn hc _ hs _ _ hchange => ?_
      exact (h ⟨⟨_, htxHash⟩, ⟨_, huser⟩,
        ⟨n, hamount, hn, hchange.inRange hs.valid (hs.fits hc)⟩, hactivates⟩).elim

theorem does_chargeRecord_fact {I : Data → Prop} {P : Protocol locking I}
    {past : List (Event Stmt Err)} (charge : ChargeRecordUpsert) :
    P.Does past (query (.chargeRecordUpsert charge) >>= fun _ => pure ())
      (.fact locking Unit ((∃ user, charge.userId = .str user) ∧
        ∃ n, charge.amountCents = .int n ∧ inInt32 n = true)) := by
  refine Protocol.does_map (X := .fact locking _ ((∃ user, charge.userId = .str user) ∧
    ∃ n, charge.amountCents = .int n ∧ inInt32 n = true)) ?_ fun _ _ _ h => h
  refine Protocol.does_exec fun env db row ws _ hx => ?_
  obtain ⟨user, _, n, huser, -, hamount, hn, -⟩ := exec_chargeRecordUpsert hx
  exact ⟨⟨user, huser⟩, n, hamount, hn⟩

/-- A transaction that does not get as far as the credits changes nothing. -/
theorem wp_recordAndApply_unchanged (htxHash : data.txHash = .str txHash) (h : ¬Settleable data)
    {trace : List (Event Stmt Err)} {db : Data} :
    unchanged.wp (recordAndApply data) (fun _ _ _ => True) ⟨[], trace⟩ db := by
  rw [recordAndApply, applyConfirmation_first, ← Prog.bind_assoc]
  refine Protocol.wp_transaction_of_middle (K := fun _ => True)
    (X := .fact locking Unit (data.plan.truthy = true → Activates data))
    (R := fun _ r _ _ => ∀ b, r = .ok b → data.amount.le (.int 0) = false)
    (Y := fun _ _ => .fact locking Unit ((∃ user, data.userId = .str user) ∧
      ∃ n, data.amount = .int n ∧ inInt32 n = true))
    (Protocol.doesWith_true (Protocol.does_weaken (Protocol.does_bind (does_eventRecord _ _ _ _)
      fun _ => does_activateFirst_fact) ?_))
    (fun _ => anyStmt_of_only (CreditsService.grantCredits_only ..))
    (fun a b c₁ _ => Protocol.doesWith_of_knowing (does_chargeRecord_fact _)
      fun _ _ _ _ _ hr => hr)
    (fun _ _ _ _ _ _ => trivial) trivial
    (fun a t c₁ db₁ _ _ _ _ hactivates _ => wp_addCredits_unchanged htxHash h hactivates)
    (fun _ _ _ _ _ _ _ _ _ hr => hr) (fun _ _ _ _ _ => trivial)
    fun a b g t c₁ c' db' ws₁ ws₂ _ _ _ _ hs _ _ hactivates hcharge hpos => ?_
  · intro _ _ _ hrel
    obtain ⟨_, _, _, -, -, hactivates⟩ := hrel
    exact hactivates
  · obtain ⟨huser, n, hamount, hn⟩ := hcharge
    have hpos : 0 < n := by simpa [hamount] using hpos b rfl
    exact (h ⟨⟨_, htxHash⟩, huser, ⟨n, hamount, hpos, hn⟩, hactivates⟩).elim

theorem wp_settle_unchanged (h : ¬Settleable data) {trace : List (Event Stmt Err)} {db : Data} :
    unchanged.wp (settle data) (fun _ _ _ => True) ⟨[], trace⟩ db := by
  rw [settle, Protocol.wp_bind]
  refine Protocol.wp_exec_auto _ (fun _ _ _ => trivial) fun env found ws db₁ hs hx => ?_
  obtain ⟨txHash, htxHash, rfl, -⟩ := exec_processedWebhookFindUnique hx
  refine ⟨Protocol.keeps_refl _ hs.inv, ?_⟩
  cases found with
  | some row => trivial
  | none =>
      simp only [Protocol.bindPost_ok]
      rw [Protocol.wp_tryCatch, Protocol.wp_bind]
      refine Protocol.wp_mono _ (fun r c' db' _ => ?_) (wp_recordAndApply_unchanged htxHash h)
      cases r with
      | ok _ => trivial
      | error e =>
          simp only [Protocol.bindPost_error]
          split <;> trivial

end Settle

/-! ## The gate -/

/-- A confirmation has an effect only if it is deep enough, in any company. -/
def FailsClosed (setting : Option String) (event : SolanaEvent) : Prop :=
  ∀ (ι : Type) [DecidableEq ι] (db : Database) (calls : ι → Action ConfirmationResponse) (i : ι)
    (s s' : Sys Stmt Data RowWrite RowLock Err ConfirmationResponse ι),
    calls i = handleConfirmation setting event →
    Runs postgres AnyStep (Sys.start db.rows calls) s → Step postgres s i s' → s'.db ≠ s.db →
    ∃ data, event.data = some data ∧ Deep setting data

/-- A database with nothing but a user. -/
def userOnly (user : String) : Database := .ofWrites [.insert .users ⟨user⟩] rfl

section Gate

variable {setting : Option String} {event : SolanaEvent} {data : SolanaData}

/-- What can be settled and is not found too shallow is settled. -/
theorem deep_of_failsClosed (h : FailsClosed setting event) (hdata : event.data = some data)
    (hevent : event.eventId.truthy = true) (hhash : data.txHash.truthy = true)
    (hsettleable : Settleable data)
    (hlt : data.confirmations.lt (requiredConfirmations setting) = false) : Deep setting data := by
  obtain ⟨⟨txHash, htxHash⟩, ⟨user, huser⟩, ⟨n, hamount, hpos, hn⟩, hactivates⟩ := hsettleable
  have hhandle : handleConfirmation setting event = settle data := by
    rw [handleConfirmation, hdata]
    simp [hevent, hhash, hlt]
  have huserRow : HasUser user (userOnly user).rows := ⟨⟨user⟩, by
    simp [userOnly, Database.ofWrites, Schema.apply, Schema.find, schema]⟩
  have hsure := sure_settle (userOnly user).valid htxHash rfl huser huserRow hamount hpos
    (.inr ⟨hn, hn, huserRow⟩) hactivates
  have hdated : Dated (fun _ => none) (.ordinary "") := rfl
  obtain ⟨r, c', db', hends, hlogged⟩ := Engine.Sure.ends (F := anyFault) hdated hsure
  -- the call alone, as the only client of a system
  have hruns := Runs.of_ends (fun _ : Unit => ⟨settle data, {}⟩) () (fun j hj => (hj rfl).elim) hends
  rw [Function.update_eq_self_iff.mpr rfl] at hruns
  have hnone : ¬CreditsService.Logged (chargeKey (.str txHash)) (userOnly user).rows := by
    intro hlog
    obtain ⟨row, hrow, -⟩ := hlog
    exact absurd hrow List.not_mem_nil
  obtain ⟨s₁, i, s₂, hbefore, hstep, -, hno, hyes⟩ := hruns.exists_step
    (A := CreditsService.Logged (chargeKey (.str txHash))) hnone hlogged
  obtain ⟨data', hdata', hdeep⟩ := h Unit (userOnly user) (fun _ => settle data) i s₁ s₂ hhandle.symm
    hbefore hstep fun heq => hno (heq ▸ hyes)
  obtain rfl := Option.some.inj (hdata.symm.trans hdata')
  exact hdeep

/-- A confirmation without a depth. -/
def unconfirmed : SolanaEvent where
  eventId := .str "event_1"
  data := some { txHash := .str "tx_1", userId := .str "user", amount := .int 500 }

end Gate

end SolanaConfirmationController

end PaymentBilling
