import PaymentBilling.Safety.DisputeCredits
import PaymentBilling.Spec.ChargeOutcomes

/-!
# Safety.Purchases

Purchases of credits through the card gateway: what an acknowledged delivery
adds to the balance of its user.

The credits are granted under a key that is made of the transaction's text, and
a key that is logged grants nothing.  So a purchase is lost exactly when its key
is in the log already, as that of any purchase without a transaction is from the
second one on.
-/

namespace PaymentBilling

open Relational Transact

/-! ## Granting -/

namespace CreditsService

section Granting

variable {userId amount : Js} {type : CreditTransactionType} {description key : String}
  {metadata : Metadata} {c : LocalState} {db : Data}

theorem does_shortCircuit_fact {I : Data → Prop} {P : Protocol locking I}
    {past : List (Event Stmt Err)} {existing : CreditTransaction} :
    P.Does past (shortCircuit userId existing)
      (.fact locking CreditsResult (∃ user, userId = .str user)) := by
  refine Protocol.does_map (X := .fact locking _ (∃ user, userId = .str user)) ?_ fun _ _ _ h => h
  exact Protocol.does_exec fun env db found ws _ hx => named_of_creditsFindUnique hx

/-- Only a grant to a user returns. -/
theorem wp_grantCredits_named :
    soloProtocol.wp (grantCredits userId amount type description key metadata)
      (fun r _ _ => ∀ a, r = .ok a → ∃ user, userId = .str user) c db := by
  unfold grantCredits
  split
  · intro a ha
    cases ha
  · refine Protocol.wp_mono _ (fun r c' db' hr a ha => ?_) (Protocol.wp_transaction_of_does_alone
      (X := .fact locking CreditsResult (∃ user, userId = .str user)) fun K => ?_)
    · obtain ⟨_, -, hnamed, -⟩ := hr.2 a ha
      exact hnamed
    · refine Protocol.does_weaken (Protocol.does_bind (X := .fact locking _ True)
        (Y := fun _ => .fact locking _ (∃ user, userId = .str user))
        (Protocol.does_exec fun _ _ _ _ _ _ => trivial) fun found => ?_) ?_
      · cases found with
        | some existing => exact does_shortCircuit_fact
        | none =>
            refine Protocol.does_weaken (Protocol.does_bind
              (X := .fact locking _ (∃ user, userId = .str user)) ?_ fun _ => Protocol.does_bind
                (X := .fact locking _ True) (Protocol.does_exec fun _ _ _ _ _ _ => trivial)
                fun _ => Protocol.does_pure _) ?_
            · refine Protocol.does_exec fun env db row ws _ hx => ?_
              obtain ⟨user, _, huser, -⟩ := exec_creditsUpsert hx
              exact ⟨user, huser⟩
            · rintro _ _ _ ⟨_, _, _, -, hnamed, -⟩
              exact hnamed
      · rintro _ _ _ ⟨_, _, _, -, -, hnamed⟩
        exact hnamed

/-- A grant that returns has moved the credits, unless they were logged. -/
theorem wp_grantCredits_moved {n : Int} :
    soloProtocol.wp (grantCredits userId (.int n) type description key metadata)
      (fun r c' db' => c'.stack = c.stack ∧
        ∀ a, r = .ok a → ∃ user, userId = .str user ∧ MovedOnce user key n db db') c db := by
  have hmoved : soloProtocol.wp (grantCredits userId (.int n) type description key metadata)
      (fun r c' db' => c'.stack = c.stack ∧
        ∀ a user, r = .ok a → userId = .str user → MovedOnce user key n db db') c db := by
    refine wp_grantCredits _ (K := fun db' => db' = db) (N := Unlogged key)
      (fun _ _ _ _ hs hk => hs.env.trans hk) rfl (fun _ _ hu => hu) (fun _ _ _ _ hs hn => ?_)
      (fun _ _ _ hc _ _ => ⟨hc, nofun⟩) (fun r c' db' hc hk hlogged => ⟨hc, fun a user _ _ => ?_⟩)
      fun r t c' db₁ user n' huser hamount hpos hstack _ hs hk hn hchange =>
        ⟨⟨trivial, trivial⟩, rfl, fun a user' _ huser' => ?_⟩
    · rw [hs.env]
      exact hn
    · subst hk
      exact .inl ⟨hlogged, rfl⟩
    · subst hk
      obtain rfl := Js.str.inj (huser.symm.trans huser')
      obtain rfl := Js.int_inj.mp hamount
      exact .inr ⟨hn, _, hs.fits hstack, hchange, rfl⟩
  refine Protocol.wp_mono _ (fun r c' db' hr => ⟨hr.1.1, fun a ha => ?_⟩)
    (Protocol.wp_and _ hmoved wp_grantCredits_named)
  obtain ⟨user, huser⟩ := hr.2 a ha
  exact ⟨user, huser, hr.1.2 a user ha huser⟩

end Granting

end CreditsService

/-! ## Deliveries -/

/-- A delivery of a purchase of credits. -/
structure CreditPurchase where
  config : AuthorizeNetConfig
  req : AuthorizeNetRequest
  data : AuthorizeNetData
  credits : Int
  type_eq : req.body.type = .str "charge.approved"
  data_eq : req.body.data = some data
  isPurchase : AuthorizeNetWebhookController.isCreditPurchase data = true
  credits_eq : AuthorizeNetWebhookController.creditAmount data.contextRef = some credits
  pos : 0 < credits

namespace CreditPurchase

open AuthorizeNetWebhookController

/-- The program of a delivery. -/
def run (p : CreditPurchase) : Action WebhookResponse := handleWebhook p.config p.req

/-- The key of its credits. -/
def key (p : CreditPurchase) : String := purchaseCreditKey p.data.transactionId.text

theorem applyEvent_eq (p : CreditPurchase) :
    applyEvent p.req.body.type p.req.body.data = (pure () >>= fun _ =>
      CreditsService.grantCredits p.data.userId (.int p.credits) .PURCHASE
        "Credit purchase via Authorize.net" p.key
        [("authorizeNetTransactionId", p.data.transactionId)] >>= fun _ =>
          recordCharge p.data .undefined) := by
  have happroved : applyEvent p.req.body.type p.req.body.data = chargeApproved p.data := by
    rw [p.type_eq, p.data_eq]
    rfl
  rw [happroved, chargeApproved, if_pos p.isPurchase, p.credits_eq]
  rfl

/-- A purchase that is acknowledged has moved the credits of its user, unless
they were logged, and has then been recorded. -/
theorem wp_run (p : CreditPurchase) {db : Data} :
    soloProtocol.wp p.run (fun r _ db' => r = .ok {} → ∃ user db₁, p.data.userId = .str user ∧
      MovedOnce user p.key p.credits db db₁ ∧ Handled p.req.body.eventId db₁ db') {} db := by
  refine wp_handleWebhook _ (fun _ _ _ => nofun) (fun _ _ _ _ _ _ _ => nofun) fun id db₁ hs _ _ => ?_
  obtain rfl : db₁ = db := hs.env
  rw [recordAndApply, p.applyEvent_eq]
  refine Protocol.wp_mono _ (fun r c' db' hr => ?_) (wp_recordFirst_alone
    (Y := fun _ => recordChargeEffect p.data)
    (M := fun r _ db₂ => ∀ a, r = .ok a → ∃ user, p.data.userId = .str user ∧
      MovedOnce user p.key p.credits db₁ db₂)
    (fun K past => does_pure_subscription ()) (anyStmt_of_only (CreditsService.grantCredits_only ..))
    (fun c₁ => Protocol.wp_mono _ (fun _ _ _ hr => ⟨fun _ _ => hr.1, hr.2⟩)
      CreditsService.wp_grantCredits_moved)
    (fun K b past => does_recordCharge p.data _) fun _ => recordsCharge_recordChargeEffect p.data)
  cases r with
  | error e => exact fun _ => nofun
  | ok a =>
      intro _
      obtain ⟨b, _, db₂, -, hmoved, -, hhandled, -⟩ := hr a rfl
      obtain ⟨user, huser, hmoved⟩ := hmoved b rfl
      exact ⟨user, db₂, huser, hmoved, hhandled⟩

end CreditPurchase

/-! ## The log -/

/-- Statements that do not log `key`. -/
def LogsOther (key : String) : (β : Type) → Stmt β → Prop
  | _, .creditTransactionCreate data => data.idempotencyKey ≠ some key
  | _, _ => True

/-- A write that does not log `key`. -/
def SparesKey (key : String) (w : RowWrite) : Prop :=
  ∀ log, w = .insert .creditTransactions log → log.idempotencyKey ≠ some key

theorem sparesKey_of_exec {key : String} :
    ∀ β (s : Stmt β), LogsOther key β s → ∀ env db b ws, postgres.exec s env db = .ok (b, ws) →
      ∀ w ∈ ws, SparesKey key w := by
  intro β s hs env db b ws hx w hw log hlog
  have hwrites := table_of_exec hx w hw
  rw [hlog] at hwrites
  cases s with
  | creditTransactionCreate data =>
      obtain ⟨_, -, rfl, hrow⟩ := exec_creditTransactionCreate hx
      obtain rfl : b = log := by simpa [hlog, eq_comm] using hw
      rw [hrow]
      exact hs
  | _ => cases hwrites

theorem logsOther_of_writesIn {key : String} {T : List Table} (hT : .creditTransactions ∉ T)
    {α : Type} {p : Action α} {d : Nat} (h : Only (WritesIn T) p d) : Only (LogsOther key) p d := by
  refine h.mono fun β s hs => ?_
  cases s with
  | creditTransactionCreate data => exact (hT (hs _ rfl)).elim
  | _ => trivial

theorem CreditsService.grantCredits_logsOther {key key' : String} (hne : key' ≠ key)
    (userId amount : Js) (type : CreditTransactionType) (description : String) (metadata : Metadata) :
    Only (LogsOther key) (grantCredits userId amount type description key' metadata) 0 := by
  unfold grantCredits
  split
  · exact only_throw _
  · refine only_transaction (only_bind (only_exec trivial) fun found => ?_)
    cases found with
    | some existing => exact logsOther_of_writesIn (T := []) (by decide) (shortCircuit_only ..)
    | none =>
        refine only_bind (only_exec trivial) fun _ => ?_
        exact only_bind (only_exec fun he => hne (Option.some.inj he)) fun _ => only_pure _

theorem unlogged_applyAll {key : String} {ws : List RowWrite} {db : Data}
    (hws : ∀ w ∈ ws, SparesKey key w) (h : CreditsService.Unlogged key db) :
    CreditsService.Unlogged key (postgres.applyAll ws db) := by
  induction ws generalizing db with
  | nil => exact h
  | cons w ws ih =>
      rw [List.forall_mem_cons] at hws
      refine ih hws.2 fun row hrow => ?_
      by_cases htable : w.table = .creditTransactions
      · cases w with
        | insert t log =>
            obtain rfl : t = .creditTransactions := htable
            have hrow : row ∈ schema.apply (.insert .creditTransactions log) db .creditTransactions := hrow
            rw [Schema.apply_insert_self] at hrow
            rcases List.mem_append.mp hrow with hold | hself
            · exact h row hold
            · rw [List.mem_singleton.mp hself]
              exact hws.1 log rfl
        | update t id p =>
            obtain rfl : t = .creditTransactions := htable
            exact p.elim
      · have hrow : row ∈ schema.apply w db .creditTransactions := hrow
        rw [Schema.apply_of_ne (Ne.symm htable)] at hrow
        exact h row hrow

namespace CreditPurchase

open AuthorizeNetWebhookController

theorem run_logsOther (p : CreditPurchase) {key : String} (hne : p.key ≠ key) :
    Only (LogsOther key) p.run 0 := by
  refine handleWebhook_only _ _ trivial trivial ?_
  rw [p.applyEvent_eq]
  refine only_bind (only_pure ()) fun _ => only_bind ?_ fun _ => ?_
  · exact CreditsService.grantCredits_logsOther hne ..
  · exact logsOther_of_writesIn (by decide) (recordCharge_only ..)

/-- A delivery leaves the keys of the others unlogged, however it ends. -/
theorem unlogged_of_ends (p : CreditPurchase) {key : String} (hne : p.key ≠ key) {db db' : Data}
    {F : Faults Stmt RowWrite RowLock Err} {r : Except Err WebhookResponse} {c : LocalState}
    (hv : schema.Valid db) (h : CreditsService.Unlogged key db)
    (hends : postgres.Ends F p.run {} db r c db') : CreditsService.Unlogged key db' := by
  have hwp : (Protocol.solo locking (CreditsService.Unlogged key)).wp p.run _ {} db :=
    Protocol.wp_only _ sparesKey_of_exec
      (fun _ _ _ _ hws _ hi _ => ⟨unlogged_applyAll hws hi, trivial⟩) (p.run_logsOther hne)
  exact (Protocol.ends_of_wp _ hv h .nil hwp hends).2.2.1

/-- A key that no delivery of a run has stays unlogged. -/
theorem unlogged_of_session {db₀ db : Data} {log : List (CreditPurchase × Except Err WebhookResponse)}
    {key : String} {F : Faults Stmt RowWrite RowLock Err} (hv : schema.Valid db₀)
    (h : Session postgres F run db₀ log db) (hnew : CreditsService.Unlogged key db₀)
    (hlog : ∀ call ∈ log, call.1.key ≠ key) : CreditsService.Unlogged key db := by
  induction h with
  | start => exact hnew
  | @call log db db' p r c hrun hends ih =>
      rw [List.forall_mem_append, List.forall_mem_singleton] at hlog
      exact p.unlogged_of_ends hlog.2 (hrun.valid (D := locking) hv) (ih hlog.1) hends

end CreditPurchase

/-! ## Acknowledged purchases -/

/-- A delivery that is acknowledged raises the balance of its user by its
credits exactly when their key was not logged.  It was not if it was not at the
start and no earlier delivery of the run had that key. -/
theorem purchase_raisesBalance (db : Database) (log : List (CreditPurchase × Except Err WebhookResponse))
    (db₁ db₂ : Data) (p : CreditPurchase) (c : LocalState)
    (hrun : Session postgres anyFault CreditPurchase.run db.rows log db₁)
    (hends : postgres.Ends anyFault p.run {} db₁ (.ok {}) c db₂) :
    (∃ user, p.data.userId = .str user ∧
      (balanceOf user db₂ = balanceOf user db₁ + p.credits ↔ CreditsService.Unlogged p.key db₁)) ∧
      (CreditsService.Unlogged p.key db.rows → (∀ call ∈ log, call.1.key ≠ p.key) →
        CreditsService.Unlogged p.key db₁) := by
  have hv : schema.Valid db₁ := hrun.valid (D := locking) db.valid
  constructor
  · obtain ⟨user, db', huser, hmoved, hhandled⟩ :=
      (soloProtocol.ends_of_wp hv trivial .nil p.wp_run hends).1 rfl
    refine ⟨user, huser, ?_⟩
    rw [balanceOf_of_same (hhandled.credits .credits (by decide)), hmoved.balanceOf hv,
      ← isLogged_eq_false_iff]
    have hpos := p.pos
    cases isLogged db₁ p.key with
    | false => simp
    | true =>
        simp only [if_true, reduceCtorEq, iff_false]
        omega
  · exact CreditPurchase.unlogged_of_session db.valid hrun

/-- A purchase of 100 credits that does not name its transaction. -/
def unnamedPurchase (eventId user : String) : CreditPurchase where
  config := constantHmac
  req :=
    { rawBody := [], signature := some "01"
      body := ⟨.str eventId, .str "charge.approved", some
        { userId := .str user, contextType := .str "credit_purchase"
          contextRef := .str "100_credits" }⟩ }
  data :=
    { userId := .str user, contextType := .str "credit_purchase", contextRef := .str "100_credits" }
  credits := 100
  type_eq := rfl
  data_eq := rfl
  isPurchase := by
    have hnamed : (Js.str "100_credits").truthy = true := by decide +kernel
    rw [AuthorizeNetWebhookController.isCreditPurchase, hnamed]
    rfl
  credits_eq := by
    have hcredits : AuthorizeNetWebhookController.creditAmount (.str "100_credits") = some 100 := by
      decide +kernel
    exact hcredits
  pos := by decide

/-- The first such purchase adds its credits. -/
theorem unnamedPurchase_raisesBalance :
    ∃ db, balanceOf "user" db = balanceOf "user" oneUser.rows + 100 := by
  have hends : postgres.Ends anyFault (unnamedPurchase "event_1" "user").run {} oneUser.rows (.ok {}) _
      (playAlone "a" (unnamedPurchase "event_1" "user").run oneUser.rows).2.2 :=
    ends_playAlone (by decide +kernel)
  obtain ⟨⟨user, huser, hraises⟩, -⟩ := purchase_raisesBalance oneUser [] _ _ _ _ .start hends
  obtain rfl := Js.str.inj huser
  exact ⟨_, hraises.mpr fun row hrow => nomatch hrow⟩

/-- The second one, of another user, is acknowledged and lost. -/
theorem unnamedPurchase_lost :
    ∃ db₁ db₂ c, Session postgres anyFault CreditPurchase.run oneUser.rows
        [(unnamedPurchase "event_1" "user", .ok {})] db₁ ∧
      postgres.Ends anyFault (unnamedPurchase "event_2" "test-admin-1").run {} db₁ (.ok {}) c db₂ ∧
      balanceOf "test-admin-1" db₂ ≠ balanceOf "test-admin-1" db₁ + 100 := by
  have hfirst : postgres.Ends anyFault (unnamedPurchase "event_1" "user").run {} oneUser.rows (.ok {}) _
      (playAlone "a" (unnamedPurchase "event_1" "user").run oneUser.rows).2.2 :=
    ends_playAlone (by decide +kernel)
  refine ⟨_, (playAlone "b" (unnamedPurchase "event_2" "test-admin-1").run _).2.2, _,
    Session.start.call hfirst, ends_playAlone ?_, ?_⟩
  · decide +kernel
  · decide +kernel

end PaymentBilling
